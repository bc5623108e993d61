import RcdServer.Commands.NoEscape
import RcdServer.Commands.Runtime

/-!
# Calls of the execution service

What the calls that accept nothing leave of the commands, and which commands are registered.
-/
namespace RcdServer.Commands

open Lib Routes Routes.Reservations

variable {D : Type}

/-! ## Calls that accept nothing -/

/-- Commands only leave the table. Of the commands `ids` none is registered, and one that executes
and keeps its dispatch state goes on executing. -/
structure Kept (ids : String → Prop) (s s' : Sys D) : Prop where
  queued : ∀ id c, s'.commands.queuedByID.lookup id = some c →
    s.commands.queuedByID.lookup id = some c
  executing : ∀ key c, s'.commands.pendingByKey.lookup key = some c →
    s.commands.pendingByKey.lookup key = some c
  still : ∀ key c, ids c.id → (s'.dispatch.lookup c.id).isSome →
    s.commands.pendingByKey.lookup key = some c → s'.commands.pendingByKey.lookup key = some c
  registered : ∀ id, ids id → (s'.dispatch.lookup id).isSome → (s.dispatch.lookup id).isSome
  issued : ∀ id ∈ s.routes.issued, id ∈ s'.routes.issued

theorem Kept.of_routes {ids : String → Prop} {s s' : Sys D} (hroutes : s'.routes = s.routes)
    (hregistered : ∀ id, ids id → (s'.dispatch.lookup id).isSome → (s.dispatch.lookup id).isSome) :
    Kept ids s s' := by
  have hcommands : s'.commands = s.commands := by rw [Sys.commands, hroutes, Sys.commands]
  exact ⟨fun id c hc => hcommands ▸ hc, fun key c hc => hcommands ▸ hc,
    fun key c _ _ hc => hcommands ▸ hc, hregistered, fun id hid => hroutes ▸ hid⟩

theorem Kept.refl (ids : String → Prop) (s : Sys D) : Kept ids s s := .of_routes rfl fun _ _ h => h

/-- The actions that neither accept nor register nor activate. -/
def quiet : Action D → Bool
  | .table a => Runtime.routing a
  | .register .. | .activate => false
  | _ => true

theorem routing_commands {s s' : Routes.Sys} {a : Routes.Action}
    (ha : Runtime.routing a = true) (h : Routes.step s a = some s') :
    s'.table.commands = s.table.commands ∧ s'.issued = s.issued := by
  cases step_call h with
  | refused => exact ⟨rfl, rfl⟩
  | openSession _ hout => exact ⟨by rw [(RouteTable.openSession_eq_ok hout).1], rfl⟩
  | touchSession hout =>
    obtain ⟨session, -, rfl⟩ := RouteTable.touchSession_eq_ok hout
    exact ⟨rfl, rfl⟩
  | closeSession => exact ⟨rfl, rfl⟩
  | selectRoute _ hout =>
    obtain ⟨-, session, old, seen, -, -, -, -, heq⟩ := RouteTable.selectRoute_eq_ok hout
    exact ⟨by rw [heq]; rfl, rfl⟩
  | setAutomatic _ hout =>
    obtain ⟨-, session, old, seen, -, -, -, -, heq⟩ := RouteTable.setAutomatic_eq_ok hout
    exact ⟨by rw [heq]; rfl, rfl⟩
  | setDefault _ hout =>
    obtain ⟨-, group, hv, -, rfl⟩ := RouteTable.setDefault_eq_ok hout
    exact ⟨rfl, rfl⟩
  | applyConfiguration => exact ⟨rfl, rfl⟩
  | prepareConfiguration => exact ⟨rfl, rfl⟩
  | abandonConfiguration => exact ⟨rfl, rfl⟩
  | publishConfiguration => exact ⟨rfl, rfl⟩
  | beginCommand | restorePending | enqueueWrite | activateQueued | finishCommand
  | finishCommandBySourcePort | commitCommandFinish | sweepExpired => cases ha

theorem step_kept {s s' : Sys D} {a : Action D} (hinv : Inv s) (ha : quiet a = true)
    (h : step s a = some s') (ids : String → Prop) : Kept ids s s' := by
  cases step_move hinv h with
  | registered id m _ heq _ _ =>
    subst heq
    cases ha
  | dispatched m _ hm hs' => exact hs' ▸ .of_routes rfl fun id _ => hm id
  | claiming id _ hs' => exact hs' ▸ .of_routes rfl fun _ _ h => h
  | finishing id state notSent _ _ hs' => exact hs' ▸ .of_routes rfl fun _ _ h => h
  | released hs' => exact hs' ▸ .of_routes rfl fun _ _ h => h
  | table b routes heq _ hstep hs' =>
    subst heq hs'
    obtain ⟨hcommands, hissued⟩ := routing_commands ha hstep
    have hsame : Sys.commands { s with routes := routes } = s.commands := hcommands
    exact ⟨fun id c hc => hsame ▸ hc, fun key c hc => hsame ▸ hc, fun key c _ _ hc => hsame ▸ hc,
      fun _ _ h => h, fun id hid => hissued ▸ hid⟩
  | claimed id routes m heq _ _ _ _ _ =>
    subst heq
    cases ha
  | finished id state cancelTail notSent now routes m _ hm hforgotten hmoves hothers hstep _ hs' =>
    subst hs'
    refine ⟨fun id c hc => hmoves.queued hc, fun key c hc => hmoves.executing hc, ?_,
      fun id _ => hm id, fun id hid => step_issued hinv.routes hstep hid⟩
    intro key c _ hregistered hc
    refine hothers key c hc ?_
    -- The finished command has lost its dispatch state.
    intro heq
    rw [heq] at hregistered
    simp [hforgotten] at hregistered

/-! ## Registered commands -/

structure Registered (s : Sys D) : Prop where
  claiming : ∀ id, s.holder = some (.claiming id) → (s.dispatch.lookup id).isSome
  issued : ∀ id, (s.dispatch.lookup id).isSome → id ∈ s.routes.issued

theorem registered_initial (config : Configuration) : Registered (Sys.initial (D := D) config) :=
  ⟨by simp [Sys.initial], by simp [Sys.initial]⟩

theorem step_registered {s s' : Sys D} {a : Action D} (hinv : Inv s) (hr : Registered s)
    (h : step s a = some s') : Registered s' := by
  cases step_move hinv h with
  | registered id m hfree _ hpending hs' =>
    subst hs'
    refine ⟨by simp [Sys.setMeta, hfree], ?_⟩
    intro id' h'
    rw [show (s.setMeta id m).dispatch.lookup id' =
      if id' = id then some m else s.dispatch.lookup id' from Map.lookup_insert_eq] at h'
    split at h'
    · rename_i heq
      obtain ⟨key, hkey⟩ := Option.isSome_iff_exists.mp hpending
      exact heq ▸ hinv.routes.issued id key hkey
    · exact hr.issued id' h'
  | dispatched m hfree hm hs' =>
    subst hs'
    exact ⟨by simp [hfree], fun id h => hr.issued id (hm id h)⟩
  | claiming id hregistered hs' =>
    subst hs'
    refine ⟨?_, hr.issued⟩
    intro id' hholder
    cases hholder
    exact hregistered
  | finishing id state notSent _ _ hs' =>
    subst hs'
    exact ⟨by simp, hr.issued⟩
  | released hs' =>
    subst hs'
    exact ⟨by simp, hr.issued⟩
  | table b routes _ _ hstep hs' =>
    subst hs'
    exact ⟨hr.claiming, fun id h => step_issued hinv.routes hstep (hr.issued id h)⟩
  | claimed id routes m _ hm _ hstep _ hs' =>
    subst hs'
    exact ⟨by simp, fun id h => step_issued hinv.routes hstep (hr.issued id (hm id h))⟩
  | finished id state cancelTail notSent now routes m _ hm _ _ _ hstep _ hs' =>
    subst hs'
    exact ⟨by simp, fun id h => step_issued hinv.routes hstep (hr.issued id (hm id h))⟩

theorem activate_error {s s' : Sys D} {id : String} {e : RouteError}
    (hholder : s.holder = some (.claiming id)) (hout : s.commands.activateQueued id = .error e)
    (h : step s .activate = some s') : s'.routes = s.routes ∧ s'.dispatch = s.dispatch := by
  simp only [step, hholder, Option.some.injEq] at h
  subst h
  unfold Sys.activate
  simp [hout]

theorem activate_ok {s s' : Sys D} {id : String} {out : Reservations × PendingCommand}
    (hholder : s.holder = some (.claiming id)) (hout : s.commands.activateQueued id = .ok out)
    (h : step s .activate = some s') :
    s'.commands = out.1 ∧ s'.routes.issued = s.routes.issued ∧
      Forgets s.dispatch s'.dispatch := by
  simp only [step, hholder, Option.some.injEq] at h
  subst h
  unfold Sys.activate
  simp only [hout]
  cases hm : s.dispatch.lookup id with
  | none => exact ⟨rfl, rfl, .refl _⟩
  | some m => exact ⟨rfl, rfl, forgets_insert (by simp [hm]) _⟩

theorem register_frame {s s' : Sys D} {id : String} {m : Meta D}
    (h : step s (.register id m) = some s') :
    s'.routes = s.routes ∧ ∀ id', (s'.dispatch.lookup id').isSome →
      (s.dispatch.lookup id').isSome ∨ id' = id ∧ (s.commands.pendingByID.lookup id').isSome := by
  simp only [step] at h
  split at h
  · cases h
  · cases h
    unfold Sys.register
    split
    · rename_i hpending
      refine ⟨rfl, fun id' h => ?_⟩
      rw [show (s.setMeta id m).dispatch.lookup id' =
        if id' = id then some m else s.dispatch.lookup id' from Map.lookup_insert_eq] at h
      split at h
      · rename_i heq
        exact .inr ⟨heq, heq ▸ hpending⟩
      · exact .inl h
    · exact ⟨rfl, fun _ h => .inl h⟩

theorem table_step {s s' : Sys D} {b : Routes.Action} (h : step s (.table b) = some s') :
    ∃ routes, Routes.step s.routes b = some routes ∧ s' = { s with routes := routes } := by
  simp only [step] at h
  split at h
  · obtain ⟨routes, hroutes, rfl⟩ := Option.map_eq_some_iff.mp h
    exact ⟨routes, hroutes, rfl⟩
  · cases h

theorem restorePending_queued {s s' : Sys D} {c : PendingCommand} {now : Time}
    (h : step s (.table (.restorePending c now)) = some s') {id : String} {c' : PendingCommand}
    (hc : s'.commands.queuedByID.lookup id = some c') :
    s.commands.queuedByID.lookup id = some c' := by
  obtain ⟨routes, hroutes, rfl⟩ := table_step h
  cases step_call hroutes with
  | refused => exact hc
  | restorePending _ hout =>
    obtain ⟨c₁, -, -, -, -, -, -, -, rfl⟩ := RouteTable.restorePending_eq_ok hout
    exact hc

theorem sweepExpired_queued {s s' : Sys D} {now maxAge : Time} (hinv : Inv s)
    (h : step s (.table (.sweepExpired now maxAge)) = some s') {id : String} {c : PendingCommand}
    (hc : s'.commands.queuedByID.lookup id = some c) :
    s.commands.queuedByID.lookup id = some c := by
  obtain ⟨routes, hroutes, rfl⟩ := table_step h
  cases hroutes
  exact (sweepExpired_removals hinv.routes.sound.1 now maxAge).queued hc

/-- The end of a reservation that is none of the commands `ids`. -/
theorem release_kept {ids : String → Prop} {s s' : Sys D} {id : String} {now : Time} (hinv : Inv s)
    (hids : ∀ id', ids id' → id' ≠ id)
    (h : step s (.table (.commitCommandFinish id false now)) = some s') : Kept ids s s' := by
  obtain ⟨routes, hroutes, rfl⟩ := table_step h
  cases step_call hroutes with
  | refused => exact .refl ids s
  | commitCommandFinish _ hout =>
    have hmoves := RouteTable.commitCommandFinish_removals hinv.routes.sound hout
    exact ⟨fun id c hc => hmoves.queued hc, fun key c hc => hmoves.executing hc,
      fun key c hid _ hc =>
        RouteTable.commitCommandFinish_others hinv.routes.sound hout hc (hids c.id hid),
      fun _ _ hm => hm, fun id hid => hid⟩

end RcdServer.Commands
