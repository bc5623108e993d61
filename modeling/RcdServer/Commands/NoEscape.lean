import RcdServer.Commands.Execution

/-!
# No queued command escapes an unconfirmed predecessor

A command is claimed from the queue only, identifiers are not reused, and a command that left the
queue does not come back. So a command is claimed once, and a command that was cancelled, alone or
with the tail of its port, is never claimed.
-/
namespace RcdServer.Commands

open Lib Lib.Run Routes Routes.Reservations

variable {D : Type}

/-! ## Identifiers that left the queue -/

/-- The identifier was used and is not queued. -/
def Gone (s : Routes.Sys) (id : String) : Prop :=
  id ∈ s.issued ∧ s.table.commands.queuedByID.lookup id = none

theorem step_issued {s s' : Routes.Sys} {a : Routes.Action} (hinv : Routes.Inv s)
    (h : Routes.step s a = some s') {id : String} (hissued : id ∈ s.issued) : id ∈ s'.issued := by
  cases step_change hinv.sound h with
  | removed _ heq _ _ => exact heq ▸ hissued
  | begun _ _ _ _ _ _ hs' => exact hs' ▸ List.mem_cons_of_mem _ hissued
  | restored _ _ _ _ _ _ hs' => exact hs' ▸ List.mem_cons_of_mem _ hissued
  | enqueued _ _ _ _ _ _ _ hs' => exact hs' ▸ List.mem_cons_of_mem _ hissued
  | activated _ _ _ _ hs' => exact hs' ▸ hissued

theorem step_gone {s s' : Routes.Sys} {a : Routes.Action} (hinv : Routes.Inv s)
    (h : Routes.step s a = some s') {id : String} (hg : Gone s id) : Gone s' id := by
  obtain ⟨hissued, hqueued⟩ := hg
  refine ⟨step_issued hinv h hissued, ?_⟩
  cases step_change hinv.sound h with
  | removed hmoves _ _ _ =>
    cases hq : s'.table.commands.queuedByID.lookup id with
    | none => rfl
    | some c =>
      have hbefore := hmoves.queued hq
      simp [hqueued] at hbefore
  | begun c _ _ _ _ _ hs' => exact hs' ▸ hqueued
  | restored c _ _ _ _ _ hs' => exact hs' ▸ hqueued
  | enqueued c _ hnew _ _ _ _ hs' =>
    subst hs'
    have hne : id ≠ c.id := by
      rintro rfl
      exact hnew hissued
    exact (AList.lookup_insert_ne hne).trans hqueued
  | activated c r _ hmove hs' =>
    subst hs'
    show r.queuedByID.lookup id = none
    cases hq : r.queuedByID.lookup id with
    | none => rfl
    | some c' =>
      have hbefore := hmove.still_queued hq
      simp [hqueued] at hbefore

/-- No executing command has the identifier. -/
def NotExecuting (s : Routes.Sys) (id : String) : Prop :=
  ∀ key c, s.table.commands.pendingByKey.lookup key = some c → c.id ≠ id

theorem step_notExecuting {s : Sys D} {routes : Routes.Sys} {a : Routes.Action}
    (hinv : Routes.Inv s.routes) (hpermitted : permitted s a = true)
    (h : Routes.step s.routes a = some routes) {id : String} (hissued : id ∈ s.routes.issued)
    (hn : NotExecuting s.routes id) : NotExecuting routes id := by
  intro key c' hc'
  have hadded : ∀ c : PendingCommand, c.id ∉ s.routes.issued →
      (s.routes.table.commands.addExecuting c).pendingByKey.lookup key = some c' → c'.id ≠ id := by
    intro c hnew hlookup
    rcases lookup_addExecuting hlookup with ⟨-, rfl⟩ | ⟨-, hlookup⟩
    · rintro rfl
      exact hnew hissued
    · exact hn key c' hlookup
  cases step_change hinv.sound h with
  | removed hmoves _ _ _ => exact hn key c' (hmoves.executing hc')
  | begun c _ hnew _ _ _ hs' =>
    subst hs'
    exact hadded c hnew hc'
  | restored c hrestore _ _ _ _ hs' =>
    subst hs'
    obtain ⟨c₀, now, rfl, hid, -⟩ := hrestore
    refine hadded c ?_ hc'
    simpa [permitted, hid] using hpermitted
  | enqueued c _ _ _ _ _ _ hs' =>
    subst hs'
    exact hn key c' hc'
  | activated c r ha _ _ =>
    subst ha
    simp [permitted] at hpermitted

/-! ## The invariant -/

/-- Neither claimed nor in a queue from which it could be. -/
structure Barred (s : Sys D) (id : String) : Prop where
  gone : Gone s.routes id
  unclaimed : id ∉ s.claimed

def unconfirmed (s : Sys D) (id : String) : Bool := (s.terminal id).all (·.uncertain)

/-- What a finish has established when it commits. -/
structure Finishing (s : Sys D) (id : String) (state : CommandState) (cancelTail notSent : Bool) :
    Prop where
  issued : id ∈ s.routes.issued
  unclaimed : notSent = true → id ∉ s.claimed
  decided : ∃ queued : Bool,
    cancelTail = (unconfirmed s id && state != .received && !queued) ∧
      (queued = true → NotExecuting s.routes id)

structure Inv (s : Sys D) : Prop where
  routes : Routes.Inv s.routes
  claimed : ∀ id ∈ s.claimed, Gone s.routes id
  nodup : s.claimed.Nodup
  notSent : ∀ id ∈ s.notSent, Barred s id
  finishing : ∀ id state cancelTail notSent,
    s.holder = some (.finishing id state cancelTail notSent) →
      Finishing s id state cancelTail notSent

theorem inv_initial (config : Configuration) : Inv (Sys.initial (D := D) config) where
  routes := Routes.inv_initial config
  claimed := by simp [Sys.initial]
  nodup := by simp [Sys.initial]
  notSent := by simp [Sys.initial]
  finishing := by simp [Sys.initial]

/-- A queued command has not been claimed. -/
theorem Inv.unclaimed {s : Sys D} (hinv : Inv s) {id : String} {c : PendingCommand}
    (hq : s.commands.queuedByID.lookup id = some c) : id ∉ s.claimed := by
  intro hmem
  have hgone := (hinv.claimed id hmem).2
  rw [show s.routes.table.commands.queuedByID.lookup id = some c from hq] at hgone
  cases hgone

/-- Steps that only touch the dispatch state, with the mutex free before and after. -/
theorem Inv.dispatch {s : Sys D} (hinv : Inv s) (m : Map String (Meta D))
    (hfree : s.holder = none) : Inv { s with dispatch := m } where
  routes := hinv.routes
  claimed := hinv.claimed
  nodup := hinv.nodup
  notSent := fun id hid => ⟨(hinv.notSent id hid).gone, (hinv.notSent id hid).unclaimed⟩
  finishing := by simp [hfree]

/-! ## One step -/

/-- No other command is registered. -/
def Forgets (m m' : Map String (Meta D)) : Prop :=
  ∀ id, (m'.lookup id).isSome → (m.lookup id).isSome

/-- What a step does to the claims, to the dispatch state and to the table. -/
inductive Move (s : Sys D) (a : Action D) (s' : Sys D) : Prop
  | registered (id : String) (m : Meta D) (hfree : s.holder = none) (ha : a = .register id m)
      (hpending : (s.commands.pendingByID.lookup id).isSome) (hs' : s' = s.setMeta id m)
  | dispatched (m : Map String (Meta D)) (hfree : s.holder = none) (hm : Forgets s.dispatch m)
      (hs' : s' = { s with dispatch := m })
  | claiming (id : String) (hregistered : (s.dispatch.lookup id).isSome)
      (hs' : s' = { s with holder := some (.claiming id) })
  | finishing (id : String) (state : CommandState) (notSent : Bool)
      (hpending : ∃ key, s.commands.pendingByID.lookup id = some key)
      (hqueued : notSent = true → ∃ c, s.commands.queuedByID.lookup id = some c)
      (hs' : s' = { s with holder := some (.finishing id state
        (unconfirmed s id && state != .received && !s.commands.isQueued id) notSent) })
  | table (b : Routes.Action) (routes : Routes.Sys) (ha : a = .table b)
      (hpermitted : permitted s b = true) (hstep : Routes.step s.routes b = some routes) (hs' : s' = { s with routes := routes })
  | released (hs' : s' = { s with holder := none })
  | claimed (id : String) (routes : Routes.Sys) (m : Map String (Meta D)) (ha : a = .activate)
      (hm : Forgets s.dispatch m) (hqueued : ∃ c, s.commands.queuedByID.lookup id = some c)
      (hstep : Routes.step s.routes (.activateQueued id) = some routes)
      (hgone : routes.table.commands.queuedByID.lookup id = none)
      (hs' : s' = { s with
        routes := routes, dispatch := m, holder := none, claimed := id :: s.claimed })
  | finished (id : String) (state : CommandState) (cancelTail notSent : Bool) (now : Time)
      (routes : Routes.Sys) (m : Map String (Meta D))
      (hholder : s.holder = some (.finishing id state cancelTail notSent))
      (hm : Forgets s.dispatch m) (hforgotten : m.lookup id = none)
      (hmoves : Removals s.commands routes.table.commands)
      (hothers : ∀ key c, s.commands.pendingByKey.lookup key = some c → c.id ≠ id →
        routes.table.commands.pendingByKey.lookup key = some c)
      (hstep : Routes.step s.routes (.commitCommandFinish id cancelTail now) = some routes)
      (hgone : routes.table.commands.pendingByID.lookup id = none)
      (hs' : s' = { s with
        routes := routes, dispatch := m, holder := none
        notSent := if notSent then id :: s.notSent else s.notSent })

section Steps

variable {s s' : Sys D} {a : Action D}

theorem Forgets.refl (m : Map String (Meta D)) : Forgets m m := fun _ h => h

theorem forgets_erase (m : Map String (Meta D)) (id : String) : Forgets m (m.erase id) := by
  intro id' h
  rw [Map.lookup_erase_eq] at h
  split at h
  · cases h
  · exact h

theorem forgets_forget (m : Map String (Meta D)) (cs : List PendingCommand) :
    Forgets m (Sys.forget m cs) := by
  induction cs generalizing m with
  | nil => exact .refl m
  | cons c cs ih => exact fun id h => forgets_erase m c.id id (ih (m.erase c.id) id h)

/-- A registered command gets another dispatch state. -/
theorem forgets_insert {m : Map String (Meta D)} {id : String} (h : (m.lookup id).isSome)
    (state : Meta D) : Forgets m (m.insert id state) := by
  intro id' h'
  rw [Map.lookup_insert_eq] at h'
  split at h'
  · rename_i heq
    exact heq ▸ h
  · exact h'

/-- A change of one command's dispatch state, or none. -/
theorem dispatched_of_lookup (hfree : s.holder = none) {id : String} {f : Meta D → Sys D}
    (hf : ∀ m, f m = s ∨ ∃ m', f m = s.setMeta id m') :
    Move s a (match s.dispatch.lookup id with
      | none => s
      | some m => f m) := by
  cases hm : s.dispatch.lookup id with
  | none => exact .dispatched s.dispatch hfree (.refl _) rfl
  | some m =>
    rcases hf m with heq | ⟨m', heq⟩
    · exact .dispatched s.dispatch hfree (.refl _) heq
    · exact .dispatched _ hfree (forgets_insert (by simp [hm]) m') heq

theorem prepareFinish_move (hfree : s.holder = none) (id : String) (state : CommandState)
    {notSent : Bool} (hqueued : notSent = true → ∃ c, s.commands.queuedByID.lookup id = some c) :
    Move s a (s.prepareFinish id state notSent) := by
  unfold Sys.prepareFinish
  split
  · exact .dispatched s.dispatch hfree (.refl _) rfl
  · split
    · exact .dispatched s.dispatch hfree (.refl _) rfl
    · rename_i hpending
      refine .finishing id state notSent ?_ hqueued rfl
      simpa [Option.isNone_iff_eq_none, Option.ne_none_iff_exists'] using hpending

theorem activate_move (hinv : Inv s) (id : String) : Move s .activate (s.activate id) := by
  unfold Sys.activate
  cases hout : s.commands.activateQueued id with
  | error e => exact .released rfl
  | ok out =>
    obtain ⟨c, rfl, hc, hmove⟩ := activateQueued_eq_ok hinv.routes.sound.1 hout
    obtain ⟨r, c'⟩ := out
    have hstep : Routes.step s.routes (.activateQueued c.id) = some { s.routes with
        table := { s.routes.table with commands := r }
        activated := s.routes.activated ++ [(c'.key, c.id)] } := by
      simp only [Routes.step]
      rw [show s.routes.table.commands.activateQueued c.id = .ok (r, c') from hout]
    have hgone : r.queuedByID.lookup c.id = none := by
      have hmoved := hmove.moved
      dsimp only at hmoved
      rw [hmoved]
      exact AList.lookup_erase c.id _
    dsimp only
    cases hm : s.dispatch.lookup c.id with
    | none => exact .claimed c.id _ s.dispatch rfl (.refl _) ⟨c, hmove.queued⟩ hstep hgone rfl
    | some m =>
      exact .claimed c.id _ _ rfl (forgets_insert (by simp [hm]) _) ⟨c, hmove.queued⟩ hstep hgone
        rfl

theorem commitFinish_move (hinv : Inv s) {id : String} {state : CommandState}
    {cancelTail notSent : Bool} (hholder : s.holder = some (.finishing id state cancelTail notSent))
    (hunlocked : s.routes.committing = none) (now : Time) :
    Move s a (s.commitFinish id cancelTail notSent now) := by
  unfold Sys.commitFinish
  cases hout : s.routes.table.commitCommandFinish id cancelTail now with
  | error e => exact .released rfl
  | ok f =>
    have hforgets := forgets_forget (s.dispatch.erase id) f.cancelled
    have hforgotten : (Sys.forget (s.dispatch.erase id) f.cancelled).lookup id = none := by
      cases hm : (Sys.forget (s.dispatch.erase id) f.cancelled).lookup id with
      | none => rfl
      | some m =>
        have hleft := hforgets id (by simp [hm])
        rw [AList.lookup_erase] at hleft
        cases hleft
    refine .finished id state cancelTail notSent now { s.routes with table := f.table } _ hholder
      (fun id' h => forgets_erase s.dispatch id id' (hforgets id' h)) hforgotten
      (RouteTable.commitCommandFinish_removals hinv.routes.sound hout)
      (fun key c hc hne => RouteTable.commitCommandFinish_others hinv.routes.sound hout hc hne) ?_
      (RouteTable.commitCommandFinish_gone hinv.routes.sound hout) rfl
    show (if s.routes.committing.isSome then none
      else s.routes.locked (.commitCommandFinish id cancelTail now)) = _
    rw [if_neg (by simp [hunlocked]), Routes.Sys.locked, hout]
    rfl

theorem step_move (hinv : Inv s) (h : step s a = some s') : Move s a s' := by
  have hfree : ∀ {x : Sys D}, (if s.holder.isSome then none else some x) = some s' →
      s.holder = none ∧ x = s' := by
    intro x hx
    split at hx
    · cases hx
    · rename_i hnone
      exact ⟨by simpa using hnone, Option.some.inj hx⟩
  cases a with
  | table b =>
    simp only [step] at h
    split at h
    · rename_i hpermitted
      obtain ⟨routes, hroutes, rfl⟩ := Option.map_eq_some_iff.mp h
      exact .table b routes rfl hpermitted hroutes rfl
    · cases h
  | activate =>
    simp only [step] at h
    generalize hh : s.holder = holder at h
    cases holder with
    | none => cases h
    | some x =>
      cases x with
      | finishing => cases h
      | claiming id =>
        cases h
        exact activate_move hinv id
  | commit now =>
    simp only [step] at h
    generalize hh : s.holder = holder at h
    cases holder with
    | none => cases h
    | some x =>
      cases x with
      | claiming => cases h
      | finishing id state cancelTail notSent =>
        simp only at h
        split at h
        · cases h
        · rename_i hunlocked
          cases h
          exact commitFinish_move hinv hh (by simpa using hunlocked) now
  | register id m =>
    obtain ⟨hnone, rfl⟩ := hfree h
    unfold Sys.register
    split
    · exact .registered id m hnone rfl ‹_› rfl
    · exact .dispatched s.dispatch hnone (.refl _) rfl
  | readyQueued id =>
    obtain ⟨hnone, rfl⟩ := hfree h
    exact dispatched_of_lookup hnone fun m => .inr ⟨_, rfl⟩
  | markTracked id =>
    obtain ⟨hnone, rfl⟩ := hfree h
    exact dispatched_of_lookup hnone fun m => .inr ⟨_, rfl⟩
  | arm id =>
    obtain ⟨hnone, rfl⟩ := hfree h
    exact dispatched_of_lookup hnone fun m => .inr ⟨_, rfl⟩
  | resetLegacyBaseline id sequence =>
    obtain ⟨hnone, rfl⟩ := hfree h
    refine dispatched_of_lookup hnone fun m => ?_
    split
    · exact .inl rfl
    · exact .inr ⟨_, rfl⟩
  | observe id terminal tracked epoch sequence =>
    obtain ⟨hnone, rfl⟩ := hfree h
    refine dispatched_of_lookup hnone fun m => ?_
    split
    · exact .inl rfl
    · split
      · exact .inl rfl
      · exact .inr ⟨_, rfl⟩
  | claimQueued source port expected =>
    obtain ⟨hnone, rfl⟩ := hfree h
    unfold Sys.claimQueued
    cases s.commands.queueHead source port with
    | none => exact .dispatched s.dispatch hnone (.refl _) rfl
    | some head =>
      dsimp only
      split
      · exact .dispatched s.dispatch hnone (.refl _) rfl
      · cases hm : s.dispatch.lookup head.id with
        | none => exact .dispatched s.dispatch hnone (.refl _) rfl
        | some m =>
          dsimp only
          split
          · exact .dispatched s.dispatch hnone (.refl _) rfl
          · exact .claiming head.id (by simp [hm]) rfl
  | finish id state =>
    obtain ⟨hnone, rfl⟩ := hfree h
    exact prepareFinish_move hnone id state (by simp)
  | cancelQueued id =>
    obtain ⟨hnone, rfl⟩ := hfree h
    unfold Sys.cancelQueued
    split
    · rename_i hqueued
      exact prepareFinish_move hnone id .failed fun _ => Option.isSome_iff_exists.mp hqueued
    · exact .dispatched s.dispatch hnone (.refl _) rfl

theorem step_barred (hinv : Inv s) (h : step s a = some s') {id : String} (hb : Barred s id) :
    Barred s' id := by
  cases step_move hinv h with
  | registered _ _ _ _ _ hs' => exact hs' ▸ ⟨hb.gone, hb.unclaimed⟩
  | dispatched m _ _ hs' => exact hs' ▸ ⟨hb.gone, hb.unclaimed⟩
  | claiming _ _ hs' => exact hs' ▸ ⟨hb.gone, hb.unclaimed⟩
  | finishing _ _ _ _ _ hs' => exact hs' ▸ ⟨hb.gone, hb.unclaimed⟩
  | released hs' => exact hs' ▸ ⟨hb.gone, hb.unclaimed⟩
  | table b routes _ _ hstep hs' =>
    exact hs' ▸ ⟨step_gone hinv.routes hstep hb.gone, hb.unclaimed⟩
  | claimed id' routes m _ _ hqueued hstep _ hs' =>
    subst hs'
    refine ⟨step_gone hinv.routes hstep hb.gone, ?_⟩
    have hne : id ≠ id' := by
      rintro rfl
      obtain ⟨c, hc⟩ := hqueued
      have hgone := hb.gone.2
      rw [show s.routes.table.commands.queuedByID.lookup id = some c from hc] at hgone
      cases hgone
    exact List.not_mem_cons_of_ne_of_not_mem hne hb.unclaimed
  | finished _ _ _ _ _ routes m _ _ _ _ _ hstep _ hs' =>
    exact hs' ▸ ⟨step_gone hinv.routes hstep hb.gone, hb.unclaimed⟩

theorem step_inv (hinv : Inv s) (h : step s a = some s') : Inv s' := by
  have hbarred : ∀ id ∈ s.notSent, Barred s' id := fun id hid =>
    step_barred hinv h (hinv.notSent id hid)
  cases step_move hinv h with
  | registered id m hfree _ _ hs' => exact hs' ▸ hinv.dispatch _ hfree
  | dispatched m hfree _ hs' => exact hs' ▸ hinv.dispatch m hfree
  | claiming id _ hs' =>
    subst hs'
    exact ⟨hinv.routes, hinv.claimed, hinv.nodup, hbarred, by simp⟩
  | released hs' =>
    subst hs'
    exact ⟨hinv.routes, hinv.claimed, hinv.nodup, hbarred, by simp⟩
  | finishing id state notSent hpending hqueued hs' =>
    subst hs'
    obtain ⟨key, hkey⟩ := hpending
    refine ⟨hinv.routes, hinv.claimed, hinv.nodup, hbarred, ?_⟩
    intro id' state' cancelTail notSent' hholder
    cases hholder
    refine ⟨hinv.routes.issued id key hkey, ?_, s.commands.isQueued id, rfl, ?_⟩
    · intro hnotSent
      obtain ⟨c, hc⟩ := hqueued hnotSent
      exact hinv.unclaimed hc
    · intro hq key' c hc heq
      have hnone := (hinv.routes.sound.1.executing key' c hc).2.2
      rw [heq] at hnone
      obtain ⟨c', hc'⟩ := Option.isSome_iff_exists.mp hq
      rw [show s.routes.table.commands.queuedByID.lookup id = some c' from hc'] at hnone
      cases hnone
  | table b routes _ hpermitted hstep hs' =>
    subst hs'
    refine ⟨Routes.step_inv hinv.routes hstep,
      fun id hid => step_gone hinv.routes hstep (hinv.claimed id hid), hinv.nodup, hbarred, ?_⟩
    intro id state cancelTail notSent hholder
    obtain ⟨hissued, hunclaimed, queued, hdecided, hnot⟩ :=
      hinv.finishing id state cancelTail notSent hholder
    exact ⟨step_issued hinv.routes hstep hissued, hunclaimed, queued, hdecided,
      fun hq => step_notExecuting hinv.routes hpermitted hstep hissued (hnot hq)⟩
  | claimed id routes m _ _ hqueued hstep hgone hs' =>
    subst hs'
    obtain ⟨c, hc⟩ := hqueued
    refine ⟨Routes.step_inv hinv.routes hstep, ?_,
      List.nodup_cons.mpr ⟨hinv.unclaimed hc, hinv.nodup⟩, hbarred, by simp⟩
    intro id' hid'
    rcases List.mem_cons.mp hid' with rfl | hid'
    · have hpending := (hinv.routes.sound.1.queued id' c hc).2.1
      exact ⟨step_issued hinv.routes hstep (hinv.routes.issued id' _ hpending), hgone⟩
    · exact step_gone hinv.routes hstep (hinv.claimed id' hid')
  | finished id state cancelTail notSent now routes m hholder _ _ _ _ hstep hgone hs' =>
    subst hs'
    have hroutes := Routes.step_inv hinv.routes hstep
    refine ⟨hroutes, fun id hid => step_gone hinv.routes hstep (hinv.claimed id hid), hinv.nodup,
      ?_, by simp⟩
    intro id' hid'
    dsimp only at hid'
    split at hid'
    · rename_i hnotSent
      rcases List.mem_cons.mp hid' with rfl | hid'
      · have hfinishing := hinv.finishing id' state cancelTail notSent hholder
        exact ⟨⟨step_issued hinv.routes hstep hfinishing.issued, hroutes.sound.1.not_queued hgone⟩, hfinishing.unclaimed hnotSent⟩
      · exact hbarred id' hid'
    · exact hbarred id' hid'

/-- The commit of an unconfirmed finish bars everything that was queued on the port. -/
theorem commit_bars (hinv : Inv s) {now : Time} (h : step s (.commit now) = some s')
    {id key : String} {state : CommandState} {cancelTail notSent : Bool} {c : PendingCommand}
    (hholder : s.holder = some (.finishing id state cancelTail notSent))
    (hexecuting : s.commands.pendingByKey.lookup key = some c) (hid : c.id = id)
    (hstate : state ≠ .received) (hterminal : unconfirmed s id = true) :
    ∀ q ∈ s.commands.queue key, Barred s' q := by
  obtain ⟨-, -, queued, hdecided, hnot⟩ := hinv.finishing id state cancelTail notSent hholder
  have hcancel : cancelTail = true := by
    have hqueued : queued = false := by
      by_contra hq
      exact hnot (by simpa using hq) key c hexecuting hid
    simp [hdecided, hterminal, hstate, hqueued]
  intro q hq
  obtain ⟨cq, hcq, -⟩ := hinv.routes.sound.1.mem_queue hq
  have hunclaimed : q ∉ s.claimed := hinv.unclaimed hcq
  have hissued : q ∈ s.routes.issued :=
    hinv.routes.issued q _ (hinv.routes.sound.1.queued q cq hcq).2.1
  obtain ⟨f, hf, hclear⟩ :=
    RouteTable.commitCommandFinish_executing hinv.routes.sound hexecuting cancelTail now
  simp only [step, hholder] at h
  split at h
  · cases h
  · rw [hid] at hf
    rw [Sys.commitFinish, hf, Option.some.injEq] at h
    subst h
    exact ⟨⟨hissued, hclear hcancel q hq⟩, hunclaimed⟩

end Steps

/-! ## Runs -/

theorem run_inv {config : Configuration} {as : List (Action D)} {s : Sys D}
    (h : exec step (Sys.initial config) as = some s) : Inv s :=
  exec_invariant Inv (fun _ _ _ hinv hstep => step_inv hinv hstep) (inv_initial config) h

theorem run_barred {s s' : Sys D} {as : List (Action D)} (hinv : Inv s) {id : String}
    (hb : Barred s id) (h : exec step s as = some s') : Barred s' id := by
  refine (exec_invariant (fun s => Inv s ∧ Barred s id) ?_ ⟨hinv, hb⟩ h).2
  intro s a s' hs hstep
  exact ⟨step_inv hs.1 hstep, step_barred hs.1 hstep hs.2⟩

/-- In every run no command is claimed twice, and none that was reported as not sent. When an
executing command is finished in a state other than `received`, without a terminal or with an
uncertain one, no command that is queued on its port at that moment is claimed in the run or in
any continuation of it. -/
theorem no_queued_escape {config : Configuration} {as : List (Action D)} {s : Sys D}
    (h : exec step (Sys.initial config) as = some s) :
    s.claimed.Nodup ∧ (∀ id ∈ s.notSent, id ∉ s.claimed) ∧
    (∀ now s' id state cancelTail notSent key c,
      s.holder = some (.finishing id state cancelTail notSent) →
      step s (.commit now) = some s' →
      s.commands.pendingByKey.lookup key = some c → c.id = id → state ≠ .received →
      (∀ terminal, s.terminal id = some terminal → terminal.uncertain = true) →
      ∀ q ∈ s.commands.queue key, ∀ bs s'', exec step s' bs = some s'' → q ∉ s''.claimed) := by
  have hinv := run_inv h
  refine ⟨hinv.nodup, fun id hid => (hinv.notSent id hid).unclaimed, ?_⟩
  intro now s' id state cancelTail notSent key c hholder hstep hexecuting hid hstate hterminal q hq
    bs s'' hrun
  have hunconfirmed : unconfirmed s id = true := by
    rw [unconfirmed]
    cases ht : s.terminal id with
    | none => rfl
    | some terminal => exact hterminal terminal ht
  have hbarred := commit_bars hinv hstep hholder hexecuting hid hstate hunconfirmed q hq
  exact (run_barred (step_inv hinv hstep) hbarred hrun).unclaimed

/-- Two writes are queued, the first is claimed and times out. -/
def timedOutHead : List (Action Unit) :=
  [.table (.openSession "session" ∅ 1),
    .table (.enqueueWrite "session" "G" "COM1" "node" "1" "a" 2),
    .register "a" { queued := some () }, .readyQueued "a",
    .table (.enqueueWrite "session" "G" "COM1" "node" "2" "b" 3),
    .register "b" { queued := some () }, .readyQueued "b",
    .claimQueued "S" "COM1" none, .activate, .finish "a" .timedOut]

theorem no_queued_escape_timedOut :
    ∃ s : Sys Unit, exec step (Sys.initial oneSource) timedOutHead = some s ∧
      s.claimed = ["a"] ∧ s.commands.queue (portKey "S" "COM1") = ["b"] ∧
      ∀ s', step s (.commit 4) = some s' → ∀ bs s'', exec step s' bs = some s'' →
        "b" ∉ s''.claimed := by
  have hrun : (exec step (Sys.initial oneSource) timedOutHead).any
      (fun s => decide (s.claimed = ["a"] ∧ s.commands.queue (portKey "S" "COM1") = ["b"] ∧
        s.holder = some (.finishing "a" .timedOut true false) ∧ s.terminal "a" = none) &&
        (s.commands.pendingByKey.lookup (portKey "S" "COM1")).any (·.id == "a")) = true := by
    decide +kernel
  obtain ⟨s, hs, hstate⟩ := (Option.any_eq_true _ _).mp hrun
  rw [Bool.and_eq_true, decide_eq_true_eq] at hstate
  obtain ⟨⟨hclaimed, hqueue, hholder, hterminal⟩, hexecuting⟩ := hstate
  obtain ⟨c, hc, hid⟩ := (Option.any_eq_true _ _).mp hexecuting
  refine ⟨s, hs, hclaimed, hqueue, ?_⟩
  intro s' hstep bs s'' hcontinue
  exact (no_queued_escape hs).2.2 4 s' "a" .timedOut true false (portKey "S" "COM1") c hholder hstep
    hc (by simpa using hid) (by decide) (by simp [hterminal]) "b" (by simp [hqueue]) bs s'' hcontinue

end RcdServer.Commands
