import RcdServer.Commands.Fencing

/-!
# Commands and process operations exclude each other

A command is sent only while its executor holds a registered, executing command, and commands are
accepted only while their source is not fenced. So a fence keeps commands out, provided that the
source had none when the operation was admitted, neither executing nor queued. The admission looks
at the executing ones only.
-/
namespace RcdServer.Commands

open Lib Lib.Run Routes Routes.Reservations Process

variable {D : Type}

namespace Runtime

section Steps

variable {r r' : Runtime D} {a : RuntimeAction D}

/-! ## Execution -/

/-- The lock is free, and nothing else changes. -/
theorem Inv.unlock (hinv : r.Inv) : Inv { r with config := none } :=
  hinv.quiet hinv.commands hinv.registered
    ⟨.refl _ _, fun _ hc => hc, .inr (.inl rfl), fun _ hf => hf, rfl, fun hs => hs, rfl⟩

/-- A command that executes is in flight from now on. -/
theorem Inv.fly (hinv : r.Inv) (hstarted : r.started = true) {c : PendingCommand}
    (hissued : c.id ∈ r.commands.routes.issued)
    (hexecuting : (r.commands.dispatch.lookup c.id).isSome → ∃ key c',
      r.reserved.pendingByKey.lookup key = some c' ∧ c'.id = c.id ∧ c'.sourceID = c.sourceID)
    (haccepting : ∀ c' call, r.config = some (.accepting c' call) → c.id ≠ c'.id)
    (hreservations : ∀ id ∈ r.reservations, c.id ≠ id)
    (hfenced : ∀ source, r.fenced source → c.sourceID ≠ source) :
    Inv { r with inFlight := c :: r.inFlight } := by
  refine ⟨hinv.commands, hinv.registered, ?_, ?_, ?_, ?_, ?_, ?_, ?_, hinv.sent⟩
  · intro c' hc'
    rcases List.mem_cons.mp hc' with rfl | hc'
    · exact hissued
    · exact hinv.issued c' hc'
  · intro c' hc'
    rcases List.mem_cons.mp hc' with rfl | hc'
    · exact hexecuting
    · exact hinv.executing c' hc'
  · intro c' call hc'
    obtain ⟨hissued, hunregistered, hapart, hunqueued, hidentified⟩ := hinv.accepting c' call hc'
    refine ⟨hissued, hunregistered, ?_, hunqueued, hidentified⟩
    intro c'' hc''
    rcases List.mem_cons.mp hc'' with rfl | hc''
    · exact haccepting c' call hc'
    · exact hapart c'' hc''
  · intro id hid
    obtain ⟨hissued, hunqueued, hapart, hnot⟩ := hinv.reservations id hid
    refine ⟨hissued, hunqueued, ?_, hnot⟩
    intro c' hc'
    rcases List.mem_cons.mp hc' with rfl | hc'
    · exact hreservations id hid
    · exact hapart c' hc'
  · intro source hf
    have hclosed := hinv.fenced source hf
    refine ⟨hclosed.queued, ?_, hclosed.accepting⟩
    intro c' hc' hregistered
    rcases List.mem_cons.mp hc' with rfl | hc'
    · exact hfenced source hf
    · exact hclosed.inFlight c' hc' hregistered
  · intro source request hc'
    have hidle := hinv.admitting source request hc'
    exact ⟨hidle.executing, hidle.queued⟩
  · exact fun hun => absurd (hstarted.symm.trans hun) (by simp)

theorem registerAccepted_inv (hinv : r.Inv) {target : Option Target} {dispatch : D}
    (h : r.registerAccepted target dispatch = some r') : r'.Inv := by
  unfold registerAccepted at h
  generalize hc : r.config = config at h
  cases config with
  | none => cases h
  | some holder =>
    cases holder with
    | starting | admitting | creating => cases h
    | accepting c call =>
      cases target with
      | none =>
        cases h
        exact hinv.unlock
      | some target =>
        obtain ⟨r₁, hr₁, rfl⟩ := Option.map_eq_some_iff.mp h
        obtain ⟨s', hstep, rfl⟩ := Option.map_eq_some_iff.mp hr₁
        have hacc := hinv.accepting c call hc
        obtain ⟨hroutes, hregistered⟩ := register_frame hstep
        have hstarted : r.started = true := by
          by_contra hun
          have hnone := (hinv.unstarted (by simpa using hun)).config
          simp [hc] at hnone
        have hregistered_inv : Inv { r with commands := s', config := none } := by
          refine hinv.quiet (Commands.step_inv hinv.commands hstep)
            (step_registered hinv.commands hinv.registered hstep)
            ⟨.of_routes hroutes ?_, fun _ hc => hc, .inr (.inl rfl), fun _ hf => hf, rfl,
              fun hs => hs, rfl⟩
          intro id hid hsome
          rcases hregistered id hsome with hold | ⟨rfl, -⟩
          · exact hold
          · rcases hid with ⟨c', hc', heq⟩ | ⟨c', call', hc', -⟩
            · exact absurd heq (hacc.inFlight c' hc')
            · cases hc'
        cases call with
        | false => exact hregistered_inv
        | true =>
          refine hregistered_inv.fly hstarted ?_ ?_ (by simp) ?_ ?_
          · show c.id ∈ s'.routes.issued
            rw [hroutes]
            exact hacc.issued
          · intro hsome
            show ∃ key c', s'.routes.table.commands.pendingByKey.lookup key = some c' ∧ _
            rw [hroutes]
            rcases hregistered c.id hsome with hold | ⟨-, hpending⟩
            · simp [hacc.unregistered] at hold
            · obtain ⟨key, hkey⟩ := Option.isSome_iff_exists.mp hpending
              rcases hinv.commands.routes.sound.1.identified c.id key hkey with
                ⟨c', hc', hid⟩ | ⟨c', hc', -⟩
              · exact ⟨key, c', hc', hid, hacc.identified rfl key c' hc' hid⟩
              · exact absurd ((hacc.unqueued rfl).symm.trans hc') (by simp)
          · intro id hid
            exact (hinv.reservations id hid).accepting c true hc
          · intro source hf
            exact (hinv.fenced source hf).accepting c true hc

/-- The queue's head starts to execute. -/
theorem Inv.activated (hinv : r.Inv) {s' : Sys D} {c : PendingCommand} {b : Action D}
    (hstep : Commands.step r.commands b = some s') (hm : Forgets r.commands.dispatch s'.dispatch)
    (hissued : s'.routes.issued = r.commands.routes.issued)
    (hmove : Activation r.reserved c s'.commands)
    (hregistered : (r.commands.dispatch.lookup c.id).isSome) : Inv { r with commands := s' } := by
  have hkept : ∀ key c', r.reserved.pendingByKey.lookup key = some c' →
      s'.commands.pendingByKey.lookup key = some c' := by
    intro key c' hc'
    rw [hmove.moved]
    have hne : key ≠ c.key := by
      rintro rfl
      exact absurd (hmove.free.symm.trans hc') (by simp)
    exact (AList.lookup_insert_ne hne).trans hc'
  refine ⟨Commands.step_inv hinv.commands hstep,
    step_registered hinv.commands hinv.registered hstep, ?_, ?_, ?_, ?_, ?_, ?_, ?_, hinv.sent⟩
  · intro c' hc'
    show c'.id ∈ s'.routes.issued
    rw [hissued]
    exact hinv.issued c' hc'
  · intro c' hc' hsome
    obtain ⟨key, c'', hc'', hid⟩ := hinv.executing c' hc' (hm c'.id hsome)
    exact ⟨key, c'', hkept key c'' hc'', hid⟩
  · intro c' call hc'
    obtain ⟨hid, hunregistered, hapart, hunqueued, hidentified⟩ := hinv.accepting c' call hc'
    refine ⟨?_, ?_, hapart, ?_, ?_⟩
    · show c'.id ∈ s'.routes.issued
      rw [hissued]
      exact hid
    · show s'.dispatch.lookup c'.id = none
      cases hl : s'.dispatch.lookup c'.id with
      | none => rfl
      | some m => exact absurd (hm c'.id (by simp [hl])) (by simp [hunregistered])
    · intro hcall
      show s'.commands.queuedByID.lookup c'.id = none
      cases hl : s'.commands.queuedByID.lookup c'.id with
      | none => rfl
      | some c'' => exact absurd ((hunqueued hcall).symm.trans (hmove.still_queued hl)) (by simp)
    · intro hcall key c'' hc'' heq
      rcases hmove.executing hc'' with ⟨-, rfl⟩ | ⟨-, hold⟩
      · -- A registered command is not the one that is being accepted.
        rw [show c.id = c'.id from heq, hunregistered] at hregistered
        cases hregistered
      · exact hidentified hcall key c'' hold heq
  · intro id hid
    obtain ⟨hid', hunqueued, hapart, hnot⟩ := hinv.reservations id hid
    refine ⟨?_, ?_, hapart, hnot⟩
    · show id ∈ s'.routes.issued
      rw [hissued]
      exact hid'
    · show s'.commands.queuedByID.lookup id = none
      cases hl : s'.commands.queuedByID.lookup id with
      | none => rfl
      | some c'' => exact absurd (hunqueued.symm.trans (hmove.still_queued hl)) (by simp)
  · intro source hf
    have hclosed := hinv.fenced source hf
    exact ⟨fun id c' hc' => hclosed.queued id c' (hmove.still_queued hc'),
      fun c' hc' hsome => hclosed.inFlight c' hc' (hm c'.id hsome), hclosed.accepting⟩
  · intro source request hc'
    have hidle := hinv.admitting source request hc'
    refine ⟨?_, fun id c' hc' => hidle.queued id c' (hmove.still_queued hc')⟩
    intro key c' hc'
    rcases hmove.executing hc' with ⟨-, rfl⟩ | ⟨-, hold⟩
    · exact hidle.queued c.id c hmove.queued
    · exact hidle.executing key c' hold
  · intro hun
    exact absurd (((hinv.unstarted hun).queued c.id).symm.trans hmove.queued) (by simp)

theorem unlockStarting_inv (hinv : r.Inv) : r.unlockStarting.Inv := by
  unfold unlockStarting
  split
  · exact hinv.unlock
  · exact hinv

/-- Releasing the lock of `startQueuedWrite` changes nothing else. -/
theorem unlockStarting_eq (r : Runtime D) :
    r.unlockStarting = r ∨ r.unlockStarting = { r with config := none } := by
  unfold unlockStarting
  split
  · exact .inr rfl
  · exact .inl rfl

theorem activate_inv (hinv : r.Inv) (h : r.activate = some r') : r'.Inv := by
  unfold activate at h
  generalize hholder : r.commands.holder = holder at h
  cases holder with
  | none => cases h
  | some x =>
    cases x with
    | finishing => cases h
    | claiming id =>
      dsimp only at h
      generalize hout : r.reserved.activateQueued id = out at h
      cases out with
      | error e =>
        obtain ⟨r₁, hr₁, rfl⟩ := Option.map_eq_some_iff.mp h
        obtain ⟨s', hstep, rfl⟩ := Option.map_eq_some_iff.mp hr₁
        obtain ⟨hroutes, hdispatch⟩ := activate_error hholder hout hstep
        refine unlockStarting_inv (hinv.quiet (Commands.step_inv hinv.commands hstep)
          (step_registered hinv.commands hinv.registered hstep) ⟨.of_routes hroutes ?_,
            fun _ hc => hc, .inl rfl, fun _ hf => hf, rfl, fun hs => hs, rfl⟩)
        exact fun id _ hsome => hdispatch ▸ hsome
      | ok out =>
        obtain ⟨r₁, hr₁, rfl⟩ := Option.map_eq_some_iff.mp h
        obtain ⟨s', hstep, rfl⟩ := Option.map_eq_some_iff.mp hr₁
        obtain ⟨hcommands, hissued, hm⟩ := activate_ok hholder hout hstep
        obtain ⟨c, rfl, hc, hmove⟩ :=
          activateQueued_eq_ok hinv.commands.routes.sound.1 hout
        obtain ⟨t, c'⟩ := out
        dsimp only at hc hcommands hmove ⊢
        subst hc
        have hregistered := hinv.registered.claiming c.id hholder
        rw [← hcommands] at hmove
        have hpending := (hinv.commands.routes.sound.1.queued c.id c hmove.queued).2.1
        have hstarted : r.started = true := by
          by_contra hun
          have hnone := (hinv.unstarted (by simpa using hun)).queued c.id
          exact absurd (hnone.symm.trans hmove.queued) (by simp)
        have hfly : Inv { r with
            commands := s', inFlight := { c with state := .waiting } :: r.inFlight } := by
          refine (hinv.activated hstep hm hissued hmove hregistered).fly hstarted ?_ ?_ ?_ ?_ ?_
          · show c.id ∈ s'.routes.issued
            rw [hissued]
            exact hinv.commands.routes.issued c.id _ hpending
          · intro _
            refine ⟨c.key, { c with state := .waiting }, ?_, rfl, rfl⟩
            show s'.commands.pendingByKey.lookup c.key = _
            rw [hmove.moved]
            exact AList.lookup_insert _
          · intro c' call hc' heq
            have hnone := (hinv.accepting c' call hc').unregistered
            rw [← show c.id = c'.id from heq] at hnone
            simp [hnone] at hregistered
          · intro id hid heq
            have hnone := (hinv.reservations id hid).unqueued
            rw [← show c.id = id from heq] at hnone
            exact absurd (hnone.symm.trans hmove.queued) (by simp)
          · intro source hf
            exact (hinv.fenced source hf).queued c.id c hmove.queued
        rcases unlockStarting_eq ({ r with commands := s' } : Runtime D) with heq | heq
        · rw [heq]
          exact hfly
        · rw [heq]
          exact hfly.unlock

theorem Inv.send (hinv : r.Inv) {sent : List (PendingCommand × String)}
    (h : ∀ e ∈ sent, e.2 = "") : Inv { r with sent := sent } := by
  refine ⟨hinv.commands, hinv.registered, hinv.issued, hinv.executing, ?_, ?_, ?_, ?_, ?_, h⟩
  · intro c call hc
    have hacc := hinv.accepting c call hc
    exact ⟨hacc.issued, hacc.unregistered, hacc.inFlight, hacc.unqueued, hacc.identified⟩
  · intro id hid
    have hapart := hinv.reservations id hid
    exact ⟨hapart.issued, hapart.unqueued, hapart.inFlight, hapart.accepting⟩
  · intro source hf
    have hclosed := hinv.fenced source hf
    exact ⟨hclosed.queued, hclosed.inFlight, hclosed.accepting⟩
  · intro source request hc
    have hidle := hinv.admitting source request hc
    exact ⟨hidle.executing, hidle.queued⟩
  · intro hun
    have hnone := hinv.unstarted hun
    exact ⟨hnone.inFlight, hnone.config, hnone.reservations, hnone.queued⟩

/-- What has been sent is not in flight any more. -/
theorem dispatch_inv (hinv : r.Inv) {id : String} {tracked : Bool} {sequence : Nat}
    (h : r.dispatch id tracked sequence = some r') : r'.Inv := by
  unfold dispatch at h
  cases hfind : r.inFlight.find? (·.id == id) with
  | none => simp [hfind] at h
  | some c =>
    simp only [hfind] at h
    obtain ⟨r₁, hr₁, rfl⟩ := Option.map_eq_some_iff.mp h
    have hquiet : Commands.quiet (D := D)
        (if tracked then .markTracked id else .resetLegacyBaseline id sequence) = true := by
      split <;> rfl
    obtain ⟨hinv₁, hq⟩ := hinv.call hquiet hr₁
    have hfewer : Inv { r₁ with inFlight := r.inFlight.filter (·.id != id) } := by
      refine hinv.quiet hinv₁.commands hinv₁.registered
        ⟨hq.kept, ?_, hq.config, hq.fences, hq.reservations, hq.started, hq.sent⟩
      exact fun c' hc' => (List.mem_filter.mp hc').1
    refine hfewer.send ?_
    intro e he
    split at he
    · rename_i hgate
      rcases List.mem_cons.mp he with rfl | he
      · -- The gate is open for a registered command only, and those are closed by a fence.
        by_contra hfence
        have hid : c.id = id := by simpa using List.find?_some hfind
        have hregistered : (r.commands.dispatch.lookup c.id).isSome := by
          unfold gate at hgate
          rw [hid]
          cases hm : r.commands.dispatch.lookup id with
          | none => simp [hm] at hgate
          | some m => rfl
        exact (hinv.fenced c.sourceID hfence).inFlight c (List.mem_of_find?_eq_some hfind)
          hregistered rfl
      · exact hinv.sent e he
    · exact hinv.sent e he

/-! ## Process operations -/

/-- Every admission whose checks pass finds no command of its source in a queue. -/
def NoneQueued (r : Runtime D) : RuntimeAction D → Prop
  | .checkProcess source _ =>
    r.checkSourceOperation source = true → r.reserved.sourcePendingCount source = 0 →
      ∀ id c, r.reserved.queuedByID.lookup id = some c → c.sourceID ≠ source
  | _ => True

theorem checkProcess_inv (hinv : r.Inv) {source request : String}
    (hok : NoneQueued r (.checkProcess source request))
    (h : r.checkProcess source request = some r') : r'.Inv := by
  unfold checkProcess at h
  split at h
  · cases h
  rename_i hfree
  split at h
  · cases h
    exact hinv
  rename_i hcheck
  split at h
  · cases h
    exact hinv
  rename_i hcount
  cases h
  simp only [Bool.or_eq_true, Bool.not_eq_true', not_or, Bool.not_eq_true,
    Option.isSome_eq_false_iff, Option.isNone_iff_eq_none, Bool.not_eq_false, ne_eq, not_not]
    at hfree hcheck hcount
  have hqueued := hok hcheck hcount
  refine ⟨hinv.commands, hinv.registered, hinv.issued, hinv.executing, by simp, ?_, ?_, ?_,
    by simp [hfree.2], hinv.sent⟩
  · intro id hid
    have hapart := hinv.reservations id hid
    exact ⟨hapart.issued, hapart.unqueued, hapart.inFlight, by simp⟩
  · intro source' hf
    have hclosed := hinv.fenced source' hf
    exact ⟨hclosed.queued, hclosed.inFlight, by simp⟩
  · intro source' request' hc
    cases hc
    refine ⟨?_, hqueued⟩
    intro key c hc heq
    have hpos : 0 < r.reserved.sourcePendingCount source :=
      Map.count_pos_iff.mpr ⟨key, c, hc, by simp [heq]⟩
    omega

theorem beginProcess_inv (hinv : r.Inv) (h : r.beginProcess = some r') : r'.Inv := by
  unfold beginProcess at h
  generalize hc : r.config = config at h
  cases config with
  | none => cases h
  | some holder =>
    cases holder with
    | accepting | starting | creating => cases h
    | admitting source request =>
      dsimp only at h
      cases hm : r.maintenance.beginProcess source request with
      | error e =>
        simp only [hm, Option.some.injEq] at h
        subst h
        exact hinv.unlock
      | ok m =>
        simp only [hm, Option.some.injEq] at h
        subst h
        have hidle := hinv.admitting source request hc
        obtain ⟨-, -, hfences, -⟩ := Maintenance.beginProcess_eq_ok hm
        refine ⟨hinv.commands, hinv.registered, hinv.issued, hinv.executing, by simp, ?_, ?_,
          by simp, ?_, hinv.sent⟩
        · intro id hid
          have hapart := hinv.reservations id hid
          exact ⟨hapart.issued, hapart.unqueued, hapart.inFlight, by simp⟩
        · intro source' hf
          by_cases heq : source' = source
          · subst heq
            refine ⟨hidle.queued, ?_, by simp⟩
            intro c hc' hregistered hsource
            obtain ⟨key, c', hc', -, hsource'⟩ := hinv.executing c hc' hregistered
            exact hidle.executing key c' hc' (hsource'.trans hsource)
          · have hold : r.fenced source' := by
              unfold fenced at hf ⊢
              rw [show ({ r with maintenance := m, config := some (.creating source request) } :
                Runtime D).maintenance.fence source' = _ from hfences source', if_neg heq] at hf
              exact hf
            have hclosed := hinv.fenced source' hold
            exact ⟨hclosed.queued, hclosed.inFlight, by simp⟩
        · intro hun
          have hnone := (hinv.unstarted hun).config
          simp [hc] at hnone

theorem releaseFence_fenced {m : Maintenance} {source request source' : String}
    (h : (m.releaseFence source request).fence source' ≠ "") : m.fence source' ≠ "" := by
  rw [Maintenance.releaseFence_fence] at h
  split at h
  · exact absurd rfl h
  · exact h

theorem createProcess_inv (hinv : r.Inv) {created : Bool}
    (h : r.createProcess created = some r') : r'.Inv := by
  unfold createProcess at h
  generalize hc : r.config = config at h
  cases config with
  | none => cases h
  | some holder =>
    cases holder with
    | accepting | starting | admitting => cases h
    | creating source request =>
      dsimp only at h
      split at h
      · cases h
        exact hinv.unlock
      · cases h
        have hreleased := hinv.maintained
          (m := (r.maintenance.releaseFence source request).endExecution source request)
          fun source' hf => releaseFence_fenced (by rwa [Maintenance.endExecution_fence] at hf)
        exact hreleased.unlock

/-! ## Every step -/

/-- What the manager restores before it starts. -/
theorem Inv.restored (hinv : r.Inv) (hun : r.started = false) {b : Action D}
    (h : r.call b = some r')
    (hqueued : ∀ s', Commands.step r.commands b = some s' → ∀ id c,
      s'.commands.queuedByID.lookup id = some c → r.reserved.queuedByID.lookup id = some c) :
    r'.Inv := by
  obtain ⟨s', hstep, rfl⟩ := Option.map_eq_some_iff.mp h
  have hnone := hinv.unstarted hun
  refine .of_unstarted (Commands.step_inv hinv.commands hstep)
    (step_registered hinv.commands hinv.registered hstep)
    ⟨hnone.inFlight, hnone.config, hnone.reservations, ?_⟩ hinv.sent
  intro id
  show s'.commands.queuedByID.lookup id = none
  cases hq : s'.commands.queuedByID.lookup id with
  | none => rfl
  | some c => exact absurd ((hnone.queued id).symm.trans (hqueued s' hstep id c hq)) (by simp)

theorem step_inv (hinv : r.Inv) (hok : NoneQueued r a) (h : r.step a = some r') : r'.Inv := by
  have hunstarted : ∀ {x : Option (Runtime D)}, (if r.started then none else x) = some r' →
      r.started = false ∧ x = some r' := by
    intro x hx
    split at hx
    · cases hx
    · rename_i hun
      exact ⟨by simpa using hun, hx⟩
  cases a with
  | restorePending c now =>
    obtain ⟨hun, h⟩ := hunstarted h
    exact hinv.restored hun h fun s' hs' id c hc => restorePending_queued hs' hc
  | restoreTracked id =>
    obtain ⟨hun, h⟩ := hunstarted h
    refine hinv.restored hun h fun s' hs' id c hc => ?_
    rw [Sys.commands, (register_frame hs').1] at hc
    exact hc
  | sweepRestored now maxAge =>
    obtain ⟨hun, h⟩ := hunstarted h
    exact hinv.restored hun h fun s' hs' id c hc => sweepExpired_queued hinv.commands hs' hc
  | restoreFence source request =>
    obtain ⟨hun, h⟩ := hunstarted h
    cases hm : r.maintenance.restoreFence source request with
    | error e => simp [hm] at h
    | ok m =>
      simp only [hm, Option.some.injEq] at h
      subst h
      have hnone := hinv.unstarted hun
      exact .of_unstarted hinv.commands hinv.registered
        ⟨hnone.inFlight, hnone.config, hnone.reservations, hnone.queued⟩ hinv.sent
  | start =>
    cases h
    exact hinv.quiet hinv.commands hinv.registered
      ⟨.refl _ _, fun _ hc => hc, .inl rfl, fun _ hf => hf, rfl, by simp, rfl⟩
  | setRelease active =>
    cases h
    exact hinv.quiet hinv.commands hinv.registered
      ⟨.refl _ _, fun _ hc => hc, .inl rfl, fun _ hf => hf, rfl, fun hs => hs, rfl⟩
  | table b =>
    simp only [step] at h
    split at h
    · rename_i hrouting
      exact (hinv.call (b := .table b) hrouting h).1
    · cases h
  | writeCommand sessionID groupID port nodeID request id now => exact writeCommand_inv hinv h
  | callCommand sessionID groupID port nodeID request id now => exact callCommand_inv hinv h
  | registerAccepted target dispatch => exact registerAccepted_inv hinv h
  | readyQueued id => exact (hinv.call rfl h).1
  | claimOwn source port id => exact (hinv.call rfl h).1
  | startQueuedWrite source port =>
    simp only [step, startQueuedWrite] at h
    split at h
    · cases h
    rename_i hfree
    obtain ⟨r₁, hr₁, rfl⟩ := Option.map_eq_some_iff.mp h
    obtain ⟨hinv₁, hq⟩ := hinv.call rfl hr₁
    split
    · refine hinv₁.quiet hinv₁.commands hinv₁.registered
        ⟨.refl _ _, fun _ hc => hc, .inr (.inr ⟨?_, .inl rfl⟩), fun _ hf => hf, rfl, fun hs => hs,
          rfl⟩
      have hon : r.started = true := by
        simp only [Bool.or_eq_true, Bool.not_eq_true', not_or, Bool.not_eq_false] at hfree
        exact hfree.2
      show r₁.started = true
      by_contra hun
      simp [hq.started (by simpa using hun)] at hon
    · exact hinv₁
  | activate => exact activate_inv hinv h
  | dispatch id tracked sequence => exact dispatch_inv hinv h
  | abandon id =>
    cases h
    exact hinv.quiet hinv.commands hinv.registered
      ⟨.refl _ _, fun c hc => (List.mem_filter.mp hc).1, .inl rfl, fun _ hf => hf, rfl,
        fun hs => hs, rfl⟩
  | observe id terminal tracked epoch sequence => exact (hinv.call rfl h).1
  | arm id => exact (hinv.call rfl h).1
  | finish id state => exact (hinv.call rfl h).1
  | cancelQueued id => exact (hinv.call rfl h).1
  | commit now => exact (hinv.call rfl h).1
  | reserve checked sessionID groupID port kind nodeID id now => exact reserve_inv hinv h
  | releaseReservation id now =>
    simp only [step] at h
    split at h
    · rename_i hid
      obtain ⟨s', hstep, rfl⟩ := Option.map_eq_some_iff.mp h
      have hapart := hinv.reservations id hid
      refine hinv.quiet (Commands.step_inv hinv.commands hstep)
        (step_registered hinv.commands hinv.registered hstep)
        ⟨release_kept hinv.commands ?_ hstep, fun _ hc => hc, .inl rfl, fun _ hf => hf, rfl,
          fun hs => hs, rfl⟩
      intro id' hid'
      rcases hid' with ⟨c, hc, rfl⟩ | ⟨c, call, hc, rfl⟩
      · exact hapart.inFlight c hc
      · exact hapart.accepting c call hc
    · cases h
  | checkProcess source request => exact checkProcess_inv hinv hok h
  | abandonProcess =>
    simp only [step] at h
    split at h
    · cases h
      exact hinv.unlock
    · cases h
  | beginProcess => exact beginProcess_inv hinv h
  | createProcess created => exact createProcess_inv hinv h
  | releaseFence source request =>
    cases h
    exact hinv.maintained fun source' hf => releaseFence_fenced hf
  | endExecution source request =>
    cases h
    exact hinv.maintained fun source' hf => by rwa [Maintenance.endExecution_fence] at hf
  | tryReconcile source request =>
    obtain ⟨m, hm, rfl⟩ := Option.map_eq_some_iff.mp h
    obtain ⟨-, hfences, -⟩ := Maintenance.tryReconcile_eq_some hm
    exact hinv.maintained fun source' hf => by rwa [Maintenance.fence_congr hfences] at hf
  | beginMutation source =>
    simp only [step] at h
    cases hm : r.maintenance.beginMutation source with
    | error e =>
      simp only [hm, Option.some.injEq] at h
      exact h ▸ hinv
    | ok out =>
      simp only [hm, Option.some.injEq] at h
      subst h
      obtain ⟨hfences, -⟩ := Maintenance.beginMutation_frame hm
      exact hinv.maintained fun source' hf => by rwa [Maintenance.fence_congr hfences] at hf
  | endMutation source lease =>
    cases h
    obtain ⟨hfences, -⟩ := @Maintenance.endMutation_frame r.maintenance source lease
    exact hinv.maintained fun source' hf => by rwa [Maintenance.fence_congr hfences] at hf

end Steps

/-! ## Runs -/

theorem run_inv {config : Configuration} {as : List (RuntimeAction D)} {r : Runtime D}
    (hok : Meets step NoneQueued (initial config) as)
    (h : exec step (initial config) as = some r) : r.Inv :=
  meets_invariant NoneQueued Inv (fun _ _ _ hinv hok hstep => step_inv hinv hok hstep)
    (inv_initial config) hok h

/-- In every run in which each admission that passes its checks finds no command of its source in a
queue: a command is sent only while its source has no fence, and a process operation begins only
while the table has no command of its source, executing or queued. -/
theorem commands_excluded {config : Configuration} {as : List (RuntimeAction D)} {r : Runtime D}
    (hok : Meets step NoneQueued (initial config) as)
    (h : exec step (initial config) as = some r) :
    (∀ c fence, (c, fence) ∈ r.sent → fence = "") ∧
    (∀ r', r.step .beginProcess = some r' → ∃ source request,
      r.config = some (.admitting source request) ∧
      (∀ key c, r.reserved.pendingByKey.lookup key = some c → c.sourceID ≠ source) ∧
      (∀ id c, r.reserved.queuedByID.lookup id = some c → c.sourceID ≠ source)) := by
  have hinv := run_inv hok h
  refine ⟨fun c fence hmem => hinv.sent (c, fence) hmem, ?_⟩
  intro r' hstep
  simp only [step, beginProcess] at hstep
  generalize hc : r.config = config at hstep
  cases config with
  | none => cases hstep
  | some holder =>
    cases holder with
    | accepting | starting | creating => cases hstep
    | admitting source request =>
      have hidle := hinv.admitting source request hc
      exact ⟨source, request, rfl, hidle.executing, hidle.queued⟩

/-- A write is accepted, claimed, sent and finished. -/
def finishedWrite : List (RuntimeAction Unit) :=
  [.start, .table (.openSession "session" ∅ 1),
    .writeCommand "session" "G" "COM1" "node" "1" "a" 2, .registerAccepted (some ⟨1, 1, 0⟩) (),
    .readyQueued "a", .claimOwn "S" "COM1" "a", .activate, .dispatch "a" true 0,
    .finish "a" .received, .commit 3]

/-- After that write an operation of its source begins. -/
theorem commands_excluded_finishedWrite :
    ∃ r : Runtime Unit, exec step (initial oneSource)
        (finishedWrite ++ [.checkProcess "S" "request", .beginProcess]) = some r ∧
      r.maintenance.fence "S" = "request" ∧ r.sent.map (·.1.id) = ["a"] ∧
      ∀ c fence, (c, fence) ∈ r.sent → fence = "" := by
  have hbefore : (exec step (initial oneSource) finishedWrite).any
      (fun r => r.reserved.queuedByID.entries.isEmpty) = true := by
    decide +kernel
  have hrun : (exec step (initial oneSource)
      (finishedWrite ++ [.checkProcess "S" "request", .beginProcess])).any
      (fun r => decide (r.maintenance.fence "S" = "request" ∧ r.sent.map (·.1.id) = ["a"])) =
        true := by
    decide +kernel
  obtain ⟨r, hr, hstate⟩ := (Option.any_eq_true _ _).mp hrun
  obtain ⟨hfence, hsent⟩ := of_decide_eq_true hstate
  have hok : Meets step NoneQueued (initial oneSource)
      (finishedWrite ++ [.checkProcess "S" "request", .beginProcess]) := by
    refine meets_append.mpr ⟨?_, ?_⟩
    · simp only [finishedWrite, Meets, NoneQueued, true_and]
      exact fun _ _ _ _ _ _ _ _ _ _ _ _ _ _ _ _ _ _ _ _ => trivial
    · intro mid hmid
      rw [hmid] at hbefore
      have hempty : mid.reserved.queuedByID.entries = [] := List.isEmpty_iff.mp hbefore
      refine ⟨?_, fun _ _ => ⟨trivial, fun _ _ => trivial⟩⟩
      intro _ _ id c hc
      have hmem := Map.mem_entries.mpr hc
      rw [hempty] at hmem
      cases hmem
  exact ⟨r, hr, hfence, hsent, (commands_excluded hok hr).1⟩

/-- An operation is admitted after a write was accepted and before it is claimed. -/
theorem queued_write_sent_under_fence :
    ∃ r : Runtime Unit, exec step (initial oneSource)
        [.start, .table (.openSession "session" ∅ 1),
          .writeCommand "session" "G" "COM1" "node" "1" "a" 2,
          .registerAccepted (some ⟨1, 1, 0⟩) (), .readyQueued "a", .checkProcess "S" "request",
          .beginProcess, .createProcess true, .claimOwn "S" "COM1" "a", .activate,
          .dispatch "a" true 0] = some r ∧
      ∃ c, c.sourceID = "S" ∧ (c, "request") ∈ r.sent ∧ r.maintenance.fence "S" = "request" := by
  have hrun : (exec step (initial oneSource)
      [.start, .table (.openSession "session" ∅ 1),
        .writeCommand "session" "G" "COM1" "node" "1" "a" 2,
        .registerAccepted (some ⟨1, 1, 0⟩) (), .readyQueued "a", .checkProcess "S" "request",
        .beginProcess, .createProcess true, .claimOwn "S" "COM1" "a", .activate,
        .dispatch "a" true 0]).any
      (fun r : Runtime Unit => r.sent.any (fun e => e.1.sourceID == "S" && e.2 == "request") &&
        r.maintenance.fence "S" == "request") = true := by
    decide +kernel
  obtain ⟨r, hr, hsent⟩ := (Option.any_eq_true _ _).mp hrun
  obtain ⟨hsent, hfence⟩ := Bool.and_eq_true_iff.mp hsent
  obtain ⟨e, he, hcheck⟩ := List.any_eq_true.mp hsent
  obtain ⟨hsource, hrequest⟩ := Bool.and_eq_true_iff.mp hcheck
  refine ⟨r, hr, e.1, by simpa using hsource, ?_, by simpa using hfence⟩
  rw [← show e.2 = "request" by simpa using hrequest]
  exact he

end Runtime

end RcdServer.Commands
