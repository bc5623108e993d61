import RcdServer.Routes.Changes

/-!
# Routes, defaults and the configuration in one step

What a step does to the sessions and to the configuration. A finished command can invalidate the
routes of a group whose last command it was; a change of configuration is applied after it was
validated, with only removals and activations in between.
-/
namespace RcdServer.Routes

open Lib Lib.Run Reservations

/-! ## Counters under removals -/

theorem Reservations.Removal.commandsOf_le {r r' : Reservations} (h : Removal r r') (g : String) :
    r'.commandsOf g ≤ r.commandsOf g := by
  cases h with
  | finish hc =>
    have herase := Map.count_erase (p := fun c' => c'.groupID == g) hc
    simp only [commandsOf, finishExecuting, removeExecuting, release_pendingByKey,
      release_queuedByID]
    omega
  | drop hc =>
    have herase := Map.count_erase (p := fun c' => c'.groupID == g) hc
    simp only [commandsOf, dropQueued, removeQueued, release_pendingByKey, release_queuedByID]
    omega

theorem Reservations.Removals.pendingCount_le {r r' : Reservations} (h : Removals r r')
    (hr : r.Sound) (g : String) : r'.pendingCount g ≤ r.pendingCount g := by
  rw [(h.sound hr).2.pendingCount, hr.2.pendingCount]
  induction h with
  | refl => exact Int.le_refl _
  | tail _ hmove ih =>
    have hle := hmove.commandsOf_le g
    omega

theorem Reservations.Sound.pendingCount_nonneg {r : Reservations} (hr : r.Sound) (g : String) :
    0 ≤ r.pendingCount g := by
  rw [hr.2.pendingCount]
  omega

/-- A group with a command is counted. -/
theorem Reservations.Sound.pendingCount_pos {r : Reservations} (hr : r.Sound) {c : PendingCommand}
    (hc : (∃ key, r.pendingByKey.lookup key = some c) ∨ ∃ id, r.queuedByID.lookup id = some c) :
    r.pendingCount c.groupID > 0 := by
  rw [hr.2.pendingCount, commandsOf]
  rcases hc with ⟨key, hc⟩ | ⟨id, hc⟩
  · have hpos : 0 < Map.count (fun c' => c'.groupID == c.groupID) r.pendingByKey :=
      Map.count_pos_iff.mpr ⟨key, c, hc, beq_self_eq_true _⟩
    omega
  · have hpos : 0 < Map.count (fun c' => c'.groupID == c.groupID) r.queuedByID :=
      Map.count_pos_iff.mpr ⟨id, c, hc, beq_self_eq_true _⟩
    omega

theorem Reservations.Activation.pendingCount {r r' : Reservations} {c : PendingCommand}
    (h : Activation r c r') (g : String) : r'.pendingCount g = r.pendingCount g := by
  obtain ⟨-, -, -, rfl⟩ := h
  rfl

/-! ## Invalidated routes -/

/-- Routes of groups in `zero` may have lost their source, with a new revision. -/
def Session.Narrows (zero : String → Prop) (s s' : Session) : Prop :=
  ∀ g, s'.routes.lookup g = s.routes.lookup g ∨
    (zero g ∧ ∃ route route', s.routes.lookup g = some route ∧
      s'.routes.lookup g = some route' ∧ route'.sourceID = "" ∧ route.revision < route'.revision)

structure Narrowed (zero : String → Prop) (t t' : RouteTable) : Prop where
  config : t'.config = t.config
  sessions : ∀ id, (t.sessions.lookup id = none ∧ t'.sessions.lookup id = none) ∨
    ∃ s s', t.sessions.lookup id = some s ∧ t'.sessions.lookup id = some s' ∧ s.Narrows zero s'

theorem Session.Narrows.refl (zero : String → Prop) (s : Session) : s.Narrows zero s :=
  fun _ => .inl rfl

theorem Session.Narrows.trans {zero : String → Prop} {a b c : Session} (hab : a.Narrows zero b)
    (hbc : b.Narrows zero c) : a.Narrows zero c := by
  intro g
  rcases hbc g with hsame | ⟨hz, route, route', hb, hc, hempty, hlt⟩
  · rcases hab g with hsame' | ⟨hz, route, route', ha, hb, hempty, hlt⟩
    · exact .inl (hsame.trans hsame')
    · exact .inr ⟨hz, route, route', ha, hsame.trans hb, hempty, hlt⟩
  · rcases hab g with hsame' | ⟨-, route₁, route₂, ha, hb', -, hlt'⟩
    · exact .inr ⟨hz, route, route', hsame' ▸ hb, hc, hempty, hlt⟩
    · obtain rfl : route₂ = route := Option.some.inj (hb'.symm.trans hb)
      exact .inr ⟨hz, route₁, route', ha, hc, hempty, Nat.lt_trans hlt' hlt⟩

theorem Narrowed.refl (zero : String → Prop) (t : RouteTable) : Narrowed zero t t where
  config := rfl
  sessions := by
    intro id
    cases hs : t.sessions.lookup id with
    | none => exact .inl ⟨rfl, rfl⟩
    | some s => exact .inr ⟨s, s, rfl, rfl, .refl zero s⟩

theorem Narrowed.trans {zero : String → Prop} {a b c : RouteTable} (hab : Narrowed zero a b)
    (hbc : Narrowed zero b c) : Narrowed zero a c where
  config := hbc.config.trans hab.config
  sessions := by
    intro id
    rcases hab.sessions id with ⟨ha, hb⟩ | ⟨s, s', ha, hb, hn⟩
    · rcases hbc.sessions id with ⟨-, hc⟩ | ⟨s, s', hb', -, -⟩
      · exact .inl ⟨ha, hc⟩
      · rw [hb] at hb'
        cases hb'
    · rcases hbc.sessions id with ⟨hb', -⟩ | ⟨s₁, s₂, hb', hc, hn'⟩
      · rw [hb] at hb'
        cases hb'
      · obtain rfl : s' = s₁ := Option.some.inj (hb.symm.trans hb')
        exact .inr ⟨s, s₂, ha, hc, hn.trans hn'⟩

theorem Narrowed.mono {zero zero' : String → Prop} {t t' : RouteTable} (h : Narrowed zero t t')
    (hz : ∀ g, zero g → zero' g) : Narrowed zero' t t' where
  config := h.config
  sessions := by
    intro id
    rcases h.sessions id with hnone | ⟨s, s', hs, hs', hn⟩
    · exact .inl hnone
    · refine .inr ⟨s, s', hs, hs', ?_⟩
      intro g
      rcases hn g with hsame | ⟨hzero, hroute⟩
      · exact .inl hsame
      · exact .inr ⟨hz g hzero, hroute⟩

namespace RouteTable

theorem invalidateSession_narrows (config : Configuration) (g : String) (s : Session) :
    s.Narrows (· = g) (invalidateSession config g s) := by
  intro g'
  unfold invalidateSession
  cases hu : unselectableRoute config g s with
  | none => exact .inl rfl
  | some route' =>
    unfold unselectableRoute at hu
    cases hr : s.routes.lookup g with
    | none => simp [hr] at hu
    | some route =>
      simp only [hr] at hu
      split at hu
      · cases hu
      · cases hu
        by_cases hg : g' = g
        · subst hg
          exact .inr ⟨rfl, route, _, hr, AList.lookup_insert _, rfl, Nat.lt_succ_self _⟩
        · exact .inl (AList.lookup_insert_ne hg)

/-- The release of one command of a group, after the command was removed from `t`. -/
theorem Finish.release_narrowed (f : Finish) (g : String) {t : RouteTable}
    (hconfig : f.table.config = t.config) (hsessions : f.table.sessions = t.sessions) :
    Narrowed (fun g' => (f.release g).table.commands.pendingCount g' = 0) t (f.release g).table := by
  unfold Finish.release
  dsimp only
  split
  · rename_i hzero
    have hcount : (f.table.commands.release g).pendingCount g = 0 := by
      rw [Reservations.release, if_pos hzero, Reservations.pendingCount, AList.lookup_erase]
      rfl
    refine ⟨hconfig, ?_⟩
    intro id
    simp only [invalidateUnselectableRoutes, Map.lookup_mapValues, hsessions]
    cases hs : t.sessions.lookup id with
    | none => exact .inl ⟨rfl, rfl⟩
    | some s =>
      refine .inr ⟨s, _, rfl, rfl, ?_⟩
      intro g'
      rcases invalidateSession_narrows f.table.config g s g' with hsame | ⟨rfl, hroute⟩
      · exact .inl hsame
      · exact .inr ⟨hcount, hroute⟩
  · have hrefl := Narrowed.refl
      (fun g' => (f.table.commands.release g).pendingCount g' = 0) t
    exact ⟨hconfig, by simpa [hsessions] using hrefl.sessions⟩

theorem cancelTail_narrowed {now : Time} {id : String} {f : Finish} {ids : List String}
    (hr : f.table.commands.Sound) :
    Narrowed (fun g => (cancelTail now id f ids).table.commands.pendingCount g = 0) f.table
      (cancelTail now id f ids).table := by
  induction ids generalizing f with
  | nil => exact Narrowed.refl _ _
  | cons queuedID rest ih =>
    rw [cancelTail]
    split
    · exact ih hr
    · cases hq : f.table.commands.queuedByID.lookup queuedID with
      | none => exact ih hr
      | some c =>
        obtain ⟨rfl, -⟩ := hr.1.queued queuedID c hq
        have hcancel : (f.cancel c now).table.commands = f.table.commands.dropQueued c :=
          Finish.release_commands _ _
        have hmove : Removal f.table.commands (f.cancel c now).table.commands :=
          hcancel ▸ .drop hq
        have hsound := hmove.sound hr
        have hfirst : Narrowed (fun g => (f.cancel c now).table.commands.pendingCount g = 0) f.table
            (f.cancel c now).table := Finish.release_narrowed _ _ rfl rfl
        show Narrowed
          (fun g => (cancelTail now id (f.cancel c now) rest).table.commands.pendingCount g = 0)
          f.table (cancelTail now id (f.cancel c now) rest).table
        refine (hfirst.mono ?_).trans (ih hsound)
        -- A group without commands stays without commands.
        intro g hzero
        have hmoves : Removals (f.cancel c now).table.commands
            (cancelTail now id (f.cancel c now) rest).table.commands := (cancelTail_removals hsound).1
        have hle := hmoves.pendingCount_le hsound g
        have hge := (hmoves.sound hsound).pendingCount_nonneg g
        omega

theorem commitCommandFinish_narrowed {t : RouteTable} {id : String} {cancel : Bool} {now : Time}
    {f : Finish} (hr : t.commands.Sound) (h : t.commitCommandFinish id cancel now = .ok f) :
    Narrowed (fun g => f.table.commands.pendingCount g = 0) t f.table := by
  obtain ⟨f₁, commands, g, hcases, hmoves, hmove, -, rfl⟩ := commitCommandFinish_eq_ok hr h
  have hsound := Removals.sound hmoves hr
  have hfirst : Narrowed (fun g => f₁.table.commands.pendingCount g = 0) t f₁.table := by
    rcases hcases with rfl | ⟨ids, rfl⟩
    · exact Narrowed.refl _ _
    · exact cancelTail_narrowed (f := { table := t }) hr
  refine (hfirst.mono ?_).trans (Finish.release_narrowed _ _ rfl rfl)
  intro g' hzero
  have hle := Removals.pendingCount_le (.single hmove) hsound g'
  have hge := (hmove.sound hsound).pendingCount_nonneg g'
  rw [Finish.release_commands]
  show (commands.release g).pendingCount g' = 0
  omega

end RouteTable

/-! ## One step -/

/-- What a step does to the sessions, to the configuration and to a commit under way. -/
inductive Routing (s : Sys) (a : Action) (s' : Sys) : Prop
  | kept
      (hnarrow : Narrowed (fun g => s'.table.commands.pendingCount g = 0) s.table s'.table)
      (hcommitting : s'.committing = s.committing)
  | opened (id : String) (session : Session) (hnew : s.table.sessions.lookup id = none)
      (hroutes : ∀ g route, session.routes.lookup g = some route → ∃ group,
        s.table.config.groups.lookup g = some group ∧
          route.sourceID = RouteTable.selectableDefault s.table.config g group)
      (htable : s'.table = { s.table with sessions := s.table.sessions.insert id session })
      (hfree : s'.committing = none)
  | closed (id : String) (ha : a = .closeSession id) (htable : s'.table = s.table.closeSession id)
      (hfree : s'.committing = none)
  | rerouted (id g : String) (route : GroupRoute)
      (hroute : RouteTable.Reroute s.table id g route s'.table) (hfree : s'.committing = none)
  | defaulted (g sourceID : String) (group : Group)
      (hvalid : s.table.config.validateSource g sourceID = .ok ())
      (hgroup : s.table.config.groups.lookup g = some group)
      (hunpinned : ¬s.table.commands.pendingCount g > 0)
      (htable : s'.table = { s.table with
        config := s.table.config.setDefault g group sourceID hvalid })
      (hfree : s'.committing = none)
  | applied (groups : List Group) (sources : List Source) (candidate : Configuration)
      (ha : a = .applyConfiguration groups sources)
      (hcandidate : newConfiguration groups sources = .ok candidate)
      (hvalid : s.table.validateConfigurationTransition candidate = .ok ())
      (htable : s'.table = s.table.applyConfiguration candidate) (hfree : s'.committing = none)
  | prepared (groups : List Group) (sources : List Source) (candidate : Configuration)
      (ha : a = .prepareConfiguration groups sources)
      (hcandidate : newConfiguration groups sources = .ok candidate)
      (hvalid : s.table.validateConfigurationTransition candidate = .ok ())
      (htable : s'.table = s.table) (hcommitting : s'.committing = some candidate)
  | abandoned (htable : s'.table = s.table) (hfree : s'.committing = none)
  | published (candidate : Configuration) (revisions : Map String Nat)
      (hcommitting : s.committing = some candidate)
      (htable : s'.table = s.table.applyConfiguration (candidate.mergePersisted revisions))
      (hfree : s'.committing = none)

section Steps

variable {s s' : Sys} {a : Action}

/-- Neither sessions nor configuration change. -/
theorem Routing.same (hconfig : s'.table.config = s.table.config)
    (hsessions : s'.table.sessions = s.table.sessions) (hcommitting : s'.committing = s.committing) :
    Routing s a s' := by
  have hrefl := Narrowed.refl (fun g => s'.table.commands.pendingCount g = 0) s.table
  exact .kept ⟨hconfig, by simpa [hsessions] using hrefl.sessions⟩ hcommitting

/-- The routes of one session are written back as they were. -/
theorem Routing.touched {id : String} {old session : Session}
    (hold : s.table.sessions.lookup id = some old) (hroutes : session.routes = old.routes)
    (htable : s'.table = { s.table with sessions := s.table.sessions.insert id session })
    (hcommitting : s'.committing = s.committing) : Routing s a s' := by
  refine .kept ⟨by rw [htable], ?_⟩ hcommitting
  intro id'
  rw [htable, Map.lookup_insert_eq]
  split
  · rename_i heq
    subst heq
    exact .inr ⟨old, session, hold, rfl, fun g => .inl (by rw [hroutes])⟩
  · cases hs : s.table.sessions.lookup id' with
    | none => exact .inl ⟨rfl, rfl⟩
    | some s₁ => exact .inr ⟨s₁, s₁, rfl, rfl, .refl _ s₁⟩

theorem candidate_eq_ok {groups : List Group} {sources : List Source} {candidate : Configuration}
    (h : s.candidate groups sources = .ok candidate) :
    newConfiguration groups sources = .ok candidate ∧
      s.table.validateConfigurationTransition candidate = .ok () := by
  unfold Sys.candidate at h
  cases hnew : newConfiguration groups sources with
  | error e => simp [hnew] at h
  | ok c =>
    simp only [hnew] at h
    cases hvalid : s.table.validateConfigurationTransition c with
    | error e => simp [hvalid] at h
    | ok u =>
      simp only [hvalid] at h
      cases h
      exact ⟨rfl, hvalid⟩

theorem step_routing (hsound : s.table.commands.Sound) (h : step s a = some s') :
    Routing s a s' := by
  cases step_call h with
  | refused => exact .same rfl rfl rfl
  | @openSession id automatic now out hfree hout =>
    obtain ⟨htable, ⟨existing, hs, hroutes⟩ | ⟨hnew, hroutes⟩⟩ := RouteTable.openSession_eq_ok hout
    · exact .touched hs hroutes htable rfl
    · exact .opened id out.2 hnew hroutes htable hfree
  | touchSession hout =>
    obtain ⟨session, hs, rfl⟩ := RouteTable.touchSession_eq_ok hout
    refine .touched hs ?_ rfl rfl
    rfl
  | @closeSession id hfree => exact .closed id rfl rfl hfree
  | selectRoute hfree hout => exact .rerouted _ _ _ (RouteTable.selectRoute_eq_ok hout) hfree
  | setAutomatic hfree hout => exact .rerouted _ _ _ (RouteTable.setAutomatic_eq_ok hout) hfree
  | @setDefault groupID sourceID expected t hfree hout =>
    obtain ⟨hunpinned, group, hv, hgroup, rfl⟩ := RouteTable.setDefault_eq_ok hout
    exact .defaulted groupID sourceID group hv hgroup hunpinned rfl hfree
  | beginCommand _ _ hout =>
    obtain ⟨c, -, -, -, -, -, -, rfl⟩ := RouteTable.beginCommand_eq_ok hout
    exact .same rfl rfl rfl
  | restorePending _ hout =>
    obtain ⟨c', -, -, -, -, -, -, -, rfl⟩ := RouteTable.restorePending_eq_ok hout
    exact .same rfl rfl rfl
  | enqueueWrite _ _ hout =>
    obtain ⟨c, -, -, -, -, -, -, rfl⟩ := RouteTable.enqueueWrite_eq_ok hout
    exact .same rfl rfl rfl
  | activateQueued => exact .same rfl rfl rfl
  | finishCommand => exact .same rfl rfl rfl
  | finishCommandBySourcePort => exact .same rfl rfl rfl
  | commitCommandFinish _ hout =>
    exact .kept (RouteTable.commitCommandFinish_narrowed hsound hout) rfl
  | sweepExpired => exact .same rfl rfl rfl
  | @applyConfiguration groups sources candidate hfree hout =>
    obtain ⟨hnew, hvalid⟩ := candidate_eq_ok hout
    exact .applied groups sources candidate rfl hnew hvalid rfl hfree
  | @prepareConfiguration groups sources candidate hfree hout =>
    obtain ⟨hnew, hvalid⟩ := candidate_eq_ok hout
    exact .prepared groups sources candidate rfl hnew hvalid rfl rfl
  | abandonConfiguration => exact .abandoned rfl rfl
  | @publishConfiguration revisions candidate hcommitting =>
    exact .published candidate revisions hcommitting rfl rfl

end Steps

end RcdServer.Routes
