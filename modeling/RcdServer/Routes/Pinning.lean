import RcdServer.Routes.Routing

/-!
# Commands pin routes, revisions do not repeat

A route changes only with a larger revision, and while a group has commands neither its routes nor
its default change. A configuration that was validated is applied later, when commands may have
finished but none was added, so what was checked for the pinned groups still holds.
-/
namespace RcdServer.Routes

open Lib Lib.Run Reservations

/-! ## Configurations that were validated -/

namespace RouteTable

variable {t : RouteTable} {candidate : Configuration}

theorem validateGroups_eq_ok {entries : List (Sigma fun _ : String => Group)}
    (h : t.validateGroups candidate entries = .ok ()) :
    ∀ e ∈ entries,
      (∃ next, candidate.groups.lookup e.1 = some next ∧
        (t.commands.pendingCount e.1 > 0 → next.defaultSourceID = e.2.defaultSourceID)) ∨
      (candidate.groups.lookup e.1 = none ∧ ¬t.commands.pendingCount e.1 > 0 ∧
        t.sessions.entries = []) := by
  induction entries with
  | nil => simp
  | cons e entries ih =>
    obtain ⟨g, group⟩ := e
    rw [validateGroups] at h
    intro e' he'
    cases hnext : candidate.groups.lookup g with
    | some next =>
      simp only [hnext] at h
      split at h
      · cases h
      rename_i hdefault
      rcases List.mem_cons.mp he' with rfl | he'
      · refine .inl ⟨next, hnext, fun hpending => ?_⟩
        by_contra hne
        exact hdefault ⟨hpending, hne⟩
      · exact ih h e' he'
    | none =>
      simp only [hnext] at h
      split at h
      · cases h
      rename_i hpending
      split at h
      · cases h
      rename_i hsessions
      rcases List.mem_cons.mp he' with rfl | he'
      · exact .inr ⟨hnext, hpending, by simpa using hsessions⟩
      · exact ih h e' he'

theorem validateSources_eq_ok {entries : List (Sigma fun _ : String => Source)}
    (h : t.validateSources candidate entries = .ok ()) :
    ∀ e ∈ entries, t.validateSourceTransition candidate e.1 e.2 = .ok () := by
  induction entries with
  | nil => simp
  | cons e entries ih =>
    rw [validateSources] at h
    cases hone : t.validateSourceTransition candidate e.1 e.2 with
    | error err => simp [hone] at h
    | ok u =>
      simp only [hone] at h
      intro e' he'
      rcases List.mem_cons.mp he' with rfl | he'
      · exact hone
      · exact ih h e' he'

theorem validateConfigurationTransition_eq_ok
    (h : t.validateConfigurationTransition candidate = .ok ()) :
    t.validateGroups candidate t.config.groups.entries = .ok () ∧
      t.validateSources candidate t.config.sources.entries = .ok () := by
  unfold validateConfigurationTransition at h
  cases hgroups : t.validateGroups candidate t.config.groups.entries with
  | error e => simp [hgroups] at h
  | ok u =>
    simp only [hgroups] at h
    exact ⟨rfl, h⟩

/-- What a validated configuration keeps of the groups. -/
structure Keeps (t : RouteTable) (candidate : Configuration) : Prop where
  groups : ∀ id session, t.sessions.lookup id = some session →
    ∀ g ∈ t.config.groups, g ∈ candidate.groups
  defaults : ∀ g group, t.config.groups.lookup g = some group → t.commands.pendingCount g > 0 →
    ∃ next, candidate.groups.lookup g = some next ∧ next.defaultSourceID = group.defaultSourceID

theorem keeps_of_valid (h : t.validateConfigurationTransition candidate = .ok ()) :
    t.Keeps candidate := by
  have hgroups := validateGroups_eq_ok (validateConfigurationTransition_eq_ok h).1
  constructor
  · intro id session hs g hg
    obtain ⟨group, hgroup⟩ := Map.mem_iff.mp hg
    rcases hgroups ⟨g, group⟩ (Map.mem_entries.mpr hgroup) with ⟨next, hnext, -⟩ | ⟨-, -, hempty⟩
    · exact Map.mem_iff.mpr ⟨next, hnext⟩
    · have hmem := Map.mem_entries.mpr hs
      simp [hempty] at hmem
  · intro g group hgroup hpending
    rcases hgroups ⟨g, group⟩ (Map.mem_entries.mpr hgroup) with ⟨next, hnext, hsame⟩ | ⟨-, hnot, -⟩
    · exact ⟨next, hnext, hsame hpending⟩
    · exact absurd hpending hnot

/-- Fewer sessions and commands are kept as well. -/
theorem Keeps.congr {t' : RouteTable} (h : t.Keeps candidate) (hconfig : t'.config = t.config)
    (hsessions : ∀ id session, t'.sessions.lookup id = some session →
      ∃ session, t.sessions.lookup id = some session)
    (hpending : ∀ g, t'.commands.pendingCount g ≤ t.commands.pendingCount g) :
    t'.Keeps candidate where
  groups := by
    intro id session hs g hg
    obtain ⟨session, hs⟩ := hsessions id session hs
    exact h.groups id session hs g (hconfig ▸ hg)
  defaults := by
    intro g group hgroup hpos
    rw [hconfig] at hgroup
    have hle := hpending g
    exact h.defaults g group hgroup (by omega)

theorem Keeps.mergePersisted (h : t.Keeps candidate) (revisions : Map String Nat) :
    t.Keeps (candidate.mergePersisted revisions) where
  groups := by
    intro id session hs g hg
    obtain ⟨next, hnext⟩ := Map.mem_iff.mp (h.groups id session hs g hg)
    exact Map.mem_iff.mpr ⟨_, by
      rw [Configuration.mergePersisted, Map.lookup_mapValues, hnext]
      rfl⟩
  defaults := by
    intro g group hgroup hpos
    obtain ⟨next, hnext, hsame⟩ := h.defaults g group hgroup hpos
    refine ⟨{ next with revision := (revisions.lookup g).getD next.revision }, ?_, hsame⟩
    rw [Configuration.mergePersisted, Map.lookup_mapValues, hnext]
    rfl

/-! ## Applying a configuration -/

theorem lookup_applyToSession_of_some {config : Configuration} {pinned : String → Bool}
    {s : Session} {g : String} {route : GroupRoute} (hroute : s.routes.lookup g = some route)
    (hg : g ∈ config.groups) :
    (applyToSession config pinned s).routes.lookup g =
      some (revalidateRoute config pinned g route) := by
  have hkept : (s.routes.keep fun g => decide (g ∈ config.groups)).lookup g = some route := by
    rw [Map.lookup_keep, if_pos (by simpa using hg), hroute]
  unfold applyToSession
  rw [Map.lookup_mapValues, Map.lookup_fill_some hkept]
  rfl

theorem lookup_applyToSession {config : Configuration} {pinned : String → Bool}
    {s : Session} {g : String} {route' : GroupRoute}
    (h : (applyToSession config pinned s).routes.lookup g = some route') :
    ∃ route, route' = revalidateRoute config pinned g route ∧ g ∈ config.groups ∧
      (s.routes.lookup g = some route ∨
        ∃ group, config.groups.lookup g = some group ∧
          route.sourceID = selectableDefault config g group) := by
  unfold applyToSession at h
  rw [Map.lookup_mapValues, Option.map_eq_some_iff] at h
  obtain ⟨route, hfilled, rfl⟩ := h
  refine ⟨route, rfl, ?_⟩
  cases hkept : (s.routes.keep fun g => decide (g ∈ config.groups)).lookup g with
  | some old =>
    rw [Map.lookup_fill_some hkept] at hfilled
    cases hfilled
    rw [Map.lookup_keep] at hkept
    split at hkept
    · rename_i hg
      exact ⟨by simpa using hg, .inl hkept⟩
    · cases hkept
  | none =>
    obtain ⟨group, hmem, rfl⟩ := Map.lookup_fill_none hkept hfilled
    have hgroup := Map.mem_entries.mp hmem
    exact ⟨Map.mem_iff.mpr ⟨group, hgroup⟩, .inr ⟨group, hgroup, rfl⟩⟩

theorem revalidateRoute_cases (config : Configuration) (pinned : String → Bool) (g : String)
    (route : GroupRoute) :
    revalidateRoute config pinned g route = route ∨
      (pinned g = false ∧ revalidateRoute config pinned g route =
        { route with sourceID := "", revision := route.revision + 1 }) := by
  unfold revalidateRoute
  split
  · exact .inl rfl
  · split
    · exact .inl rfl
    · rename_i hpinned
      rw [Bool.or_eq_true, not_or] at hpinned
      exact .inr ⟨by simpa using hpinned.1, rfl⟩

end RouteTable

open RouteTable (Keeps)

/-! ## One step -/

/-- Unchanged, or with a larger revision. -/
def GroupRoute.Advances (route route' : GroupRoute) : Prop :=
  route' = route ∨ route.revision < route'.revision

theorem GroupRoute.Advances.trans {a b c : GroupRoute} (hab : a.Advances b) (hbc : b.Advances c) :
    a.Advances c := by
  rcases hab with rfl | hab
  · exact hbc
  · rcases hbc with rfl | hbc
    · exact .inr hab
    · exact .inr (Nat.lt_trans hab hbc)

/-- The routes of a session after a step; `pinned` are the groups with commands before and
after it. -/
def Session.Advances (pinned : String → Prop) (s s' : Session) : Prop :=
  ∀ g route, s.routes.lookup g = some route →
    ∃ route', s'.routes.lookup g = some route' ∧ route.Advances route' ∧
      (pinned g → route' = route)

theorem Session.advances_of_eq {pinned : String → Prop} {s s' : Session}
    (h : s'.routes = s.routes) : s.Advances pinned s' :=
  fun _ route hroute => ⟨route, h ▸ hroute, .inl rfl, fun _ => rfl⟩

structure Routed (s : Sys) : Prop where
  grouped : ∀ id session g route, s.table.sessions.lookup id = some session →
    session.routes.lookup g = some route → g ∈ s.table.config.groups
  committing : ∀ candidate, s.committing = some candidate → s.table.Keeps candidate

theorem routed_initial (config : Configuration) : Routed (Sys.initial config) where
  grouped := by simp [Sys.initial, RouteTable.new]
  committing := by simp [Sys.initial]

section Steps

variable {s s' : Sys} {a : Action}

/-- Commands are only removed and activated while a configuration is committed. -/
theorem pendingCount_le_of_committing (hinv : Inv s) (h : step s a = some s')
    {candidate : Configuration} (hcommitting : s.committing = some candidate) (g : String) :
    s'.table.commands.pendingCount g ≤ s.table.commands.pendingCount g := by
  cases step_change hinv.sound h with
  | removed hmoves _ _ _ => exact hmoves.pendingCount_le hinv.sound g
  | begun _ hunlocked _ _ _ _ _ => simp [hunlocked] at hcommitting
  | restored _ _ hunlocked _ _ _ _ => simp [hunlocked] at hcommitting
  | enqueued _ hunlocked _ _ _ _ _ _ => simp [hunlocked] at hcommitting
  | activated c r _ hmove hs' =>
    subst hs'
    exact Int.le_of_eq (hmove.pendingCount g)

/-- The groups that a step may not touch. -/
def Pinned (s s' : Sys) (g : String) : Prop :=
  s.table.commands.pendingCount g > 0 ∧ s'.table.commands.pendingCount g > 0

/-- What a step does to the routes of the sessions that stay open, and to the defaults. -/
structure Advanced (s : Sys) (a : Action) (s' : Sys) : Prop where
  sessions : ∀ id session, s.table.sessions.lookup id = some session → a ≠ .closeSession id →
    ∃ session', s'.table.sessions.lookup id = some session' ∧
      session.Advances (Pinned s s') session'
  defaults : ∀ g group, s.table.config.groups.lookup g = some group → Pinned s s' g →
    ∃ group', s'.table.config.groups.lookup g = some group' ∧
      group'.defaultSourceID = group.defaultSourceID

/-- The configuration stays, and so does every session but `id`. -/
theorem advanced_of_insert {id : String} {session : Session}
    (hconfig : s'.table.config = s.table.config)
    (hsessions : s'.table.sessions = s.table.sessions.insert id session)
    (hsession : ∀ old, s.table.sessions.lookup id = some old →
      old.Advances (Pinned s s') session) : Advanced s a s' where
  sessions := by
    intro id' old hold _
    rw [hsessions, Map.lookup_insert_eq]
    split
    · rename_i heq
      exact ⟨session, rfl, hsession old (heq ▸ hold)⟩
    · exact ⟨old, hold, Session.advances_of_eq rfl⟩
  defaults := fun g group hgroup _ => ⟨group, hconfig ▸ hgroup, rfl⟩

theorem narrowed_advanced
    (h : Narrowed (fun g => s'.table.commands.pendingCount g = 0) s.table s'.table) :
    Advanced s a s' where
  sessions := by
    intro id session hs _
    rcases h.sessions id with ⟨hnone, -⟩ | ⟨old, session', hold, hs', hn⟩
    · simp [hs] at hnone
    · obtain rfl : session = old := Option.some.inj (hs.symm.trans hold)
      refine ⟨session', hs', ?_⟩
      intro g route hroute
      rcases hn g with hsame | ⟨hzero, route₁, route', hroute₁, hroute', -, hlt⟩
      · exact ⟨route, hsame ▸ hroute, .inl rfl, fun _ => rfl⟩
      · obtain rfl : route = route₁ := Option.some.inj (hroute.symm.trans hroute₁)
        refine ⟨route', hroute', .inr hlt, ?_⟩
        intro hpinned
        have hpos := hpinned.2
        omega
  defaults := fun g group hgroup _ => ⟨group, h.config ▸ hgroup, rfl⟩

/-- A configuration whose groups were validated is applied. -/
theorem applied_advanced {config : Configuration} (hr : Routed s) (hkeeps : s.table.Keeps config)
    (htable : s'.table = s.table.applyConfiguration config) : Advanced s a s' where
  sessions := by
    intro id session hs _
    refine ⟨RouteTable.applyToSession config
      (fun g => decide (s.table.commands.pendingCount g > 0)) session, ?_, ?_⟩
    · rw [htable, RouteTable.applyConfiguration, Map.lookup_mapValues, hs]
      rfl
    · intro g route hroute
      have hg := hkeeps.groups id session hs g (hr.grouped id session g route hs hroute)
      refine ⟨_, RouteTable.lookup_applyToSession_of_some hroute hg, ?_⟩
      rcases RouteTable.revalidateRoute_cases config
        (fun g => decide (s.table.commands.pendingCount g > 0)) g route with heq | ⟨hfree, heq⟩
      · rw [heq]
        exact ⟨.inl rfl, fun _ => rfl⟩
      · rw [heq]
        refine ⟨.inr (Nat.lt_succ_self _), ?_⟩
        intro hpinned
        simp only [decide_eq_false_iff_not] at hfree
        exact absurd hpinned.1 hfree
  defaults := by
    intro g group hgroup hpinned
    rw [htable]
    exact hkeeps.defaults g group hgroup hpinned.1

theorem step_advanced (hinv : Inv s) (hr : Routed s) (h : step s a = some s') :
    Advanced s a s' := by
  cases step_routing hinv.sound h with
  | kept hnarrow _ => exact narrowed_advanced hnarrow
  | opened id session hnew _ htable _ =>
    refine advanced_of_insert (by rw [htable]) (by rw [htable]) ?_
    intro old hold
    simp [hnew] at hold
  | closed id ha htable _ =>
    refine ⟨?_, fun g group hgroup _ => ⟨group, by rw [htable]; exact hgroup, rfl⟩⟩
    intro id' session hs hne
    have hid : id' ≠ id := by
      rintro rfl
      exact hne ha
    refine ⟨session, ?_, Session.advances_of_eq rfl⟩
    rw [htable]
    exact (AList.lookup_erase_ne hid).trans hs
  | rerouted id g route hroute _ =>
    obtain ⟨hunpinned, session, old, seen, hs, hold, hrevision, -, htable⟩ := hroute
    refine advanced_of_insert (by rw [htable]; rfl) (by rw [htable]; rfl) ?_
    intro session' hs'
    obtain rfl : session = session' := Option.some.inj (hs.symm.trans hs')
    intro g' route' hroute'
    by_cases hg : g' = g
    · subst hg
      obtain rfl : old = route' := Option.some.inj (hold.symm.trans hroute')
      refine ⟨route, AList.lookup_insert _, .inr (by omega), ?_⟩
      intro hpinned
      exact absurd hpinned.1 hunpinned
    · exact ⟨route', (AList.lookup_insert_ne hg).trans hroute', .inl rfl, fun _ => rfl⟩
  | defaulted g sourceID group hvalid hgroup hunpinned htable _ =>
    refine ⟨?_, ?_⟩
    · intro id session hs _
      exact ⟨session, by rw [htable]; exact hs, Session.advances_of_eq rfl⟩
    · intro g' group' hgroup' hpinned
      have hne : g' ≠ g := by
        rintro rfl
        exact hunpinned hpinned.1
      refine ⟨group', ?_, rfl⟩
      rw [htable]
      exact (AList.lookup_insert_ne hne).trans hgroup'
  | applied _ _ candidate _ _ hvalid htable _ =>
    exact applied_advanced hr (RouteTable.keeps_of_valid hvalid) htable
  | prepared _ _ candidate _ _ _ htable _ =>
    refine ⟨?_, fun g group hgroup _ => ⟨group, by rw [htable]; exact hgroup, rfl⟩⟩
    intro id session hs _
    exact ⟨session, by rw [htable]; exact hs, Session.advances_of_eq rfl⟩
  | abandoned htable _ =>
    refine ⟨?_, fun g group hgroup _ => ⟨group, by rw [htable]; exact hgroup, rfl⟩⟩
    intro id session hs _
    exact ⟨session, by rw [htable]; exact hs, Session.advances_of_eq rfl⟩
  | published candidate revisions hcommitting htable _ =>
    exact applied_advanced hr ((hr.committing candidate hcommitting).mergePersisted revisions) htable

/-- Every route lies in a configured group. -/
def Grouped (t : RouteTable) : Prop :=
  ∀ id session g route, t.sessions.lookup id = some session →
    session.routes.lookup g = some route → g ∈ t.config.groups

theorem grouped_insert {t : RouteTable} (h : Grouped t) {id : String} {session : Session}
    (hsession : ∀ g route, session.routes.lookup g = some route → g ∈ t.config.groups) :
    Grouped { t with sessions := t.sessions.insert id session } := by
  intro id' session' g route hs hroute
  rw [show (t.sessions.insert id session).lookup id' =
    if id' = id then some session else t.sessions.lookup id' from Map.lookup_insert_eq] at hs
  split at hs
  · cases hs
    exact hsession g route hroute
  · exact h id' session' g route hs hroute

theorem grouped_apply (t : RouteTable) (config : Configuration) :
    Grouped (t.applyConfiguration config) := by
  intro id session g route hs hroute
  rw [RouteTable.applyConfiguration, Map.lookup_mapValues, Option.map_eq_some_iff] at hs
  obtain ⟨old, -, rfl⟩ := hs
  obtain ⟨-, -, hg, -⟩ := RouteTable.lookup_applyToSession hroute
  exact hg

theorem step_grouped (hinv : Inv s) (hr : Grouped s.table) (h : step s a = some s') :
    Grouped s'.table := by
  cases step_routing hinv.sound h with
  | kept hnarrow _ =>
    intro id session' g route' hs' hroute'
    rw [hnarrow.config]
    rcases hnarrow.sessions id with ⟨-, hnone⟩ | ⟨session, session₁, hs, hs₁, hn⟩
    · simp [hs'] at hnone
    · obtain rfl : session' = session₁ := Option.some.inj (hs'.symm.trans hs₁)
      rcases hn g with hsame | ⟨-, route, -, hroute, -⟩
      · exact hr id session g route' hs (hsame ▸ hroute')
      · exact hr id session g route hs hroute
  | opened id session _ hroutes htable _ =>
    rw [htable]
    apply grouped_insert hr
    intro g route hroute
    obtain ⟨group, hgroup, -⟩ := hroutes g route hroute
    exact Map.mem_iff.mpr ⟨group, hgroup⟩
  | closed id _ htable _ =>
    rw [htable]
    intro id' session g route hs hroute
    rw [RouteTable.closeSession, Map.lookup_erase_eq] at hs
    split at hs
    · cases hs
    · exact hr id' session g route hs hroute
  | rerouted id g route hroute _ =>
    obtain ⟨-, session, old, seen, hs, hold, -, -, htable⟩ := hroute
    rw [htable]
    apply grouped_insert hr
    intro g' route' hroute'
    rw [Map.lookup_insert_eq] at hroute'
    split at hroute'
    · rename_i heq
      exact heq ▸ hr id session g old hs hold
    · exact hr id session g' route' hs hroute'
  | defaulted g sourceID group _ _ _ htable _ =>
    rw [htable]
    intro id session g' route hs hroute
    exact (AList.mem_insert _).mpr (.inr (hr id session g' route hs hroute))
  | applied _ _ _ _ _ _ htable _ => exact htable ▸ grouped_apply _ _
  | prepared _ _ _ _ _ _ htable _ => exact htable ▸ hr
  | abandoned htable _ => exact htable ▸ hr
  | published _ _ _ htable _ => exact htable ▸ grouped_apply _ _

theorem step_routed (hinv : Inv s) (hr : Routed s) (h : step s a = some s') : Routed s' where
  grouped := step_grouped hinv hr.grouped h
  committing := by
    intro candidate hcandidate
    cases step_routing hinv.sound h with
    | kept hnarrow hcommitting =>
      rw [hcommitting] at hcandidate
      refine (hr.committing candidate hcandidate).congr hnarrow.config ?_
        (pendingCount_le_of_committing hinv h hcandidate)
      intro id session' hs'
      rcases hnarrow.sessions id with ⟨-, hnone⟩ | ⟨session, -, hs, -⟩
      · simp [hs'] at hnone
      · exact ⟨session, hs⟩
    | prepared _ _ candidate' _ _ hvalid htable hcommitting =>
      obtain rfl : candidate = candidate' := by simpa [hcommitting] using hcandidate.symm
      rw [htable]
      exact RouteTable.keeps_of_valid hvalid
    | opened _ _ _ _ _ hfree => simp [hfree] at hcandidate
    | closed _ _ _ hfree => simp [hfree] at hcandidate
    | rerouted _ _ _ _ hfree => simp [hfree] at hcandidate
    | defaulted _ _ _ _ _ _ _ hfree => simp [hfree] at hcandidate
    | applied _ _ _ _ _ _ _ hfree => simp [hfree] at hcandidate
    | abandoned _ hfree => simp [hfree] at hcandidate
    | published _ _ _ _ hfree => simp [hfree] at hcandidate

end Steps

theorem closed_session {s s' : Sys} {id : String} (h : step s (.closeSession id) = some s') :
    s'.table.sessions.lookup id = none := by
  simp only [step] at h
  split at h
  · cases h
  · cases h
    exact AList.lookup_erase id _

/-! ## Runs -/

theorem run_routed {config : Configuration} {as : List Action} {s : Sys}
    (h : exec step (Sys.initial config) as = some s) : Inv s ∧ Routed s := by
  refine exec_invariant (fun s => Inv s ∧ Routed s) ?_ ⟨inv_initial config, routed_initial config⟩ h
  intro s a s' hs hstep
  exact ⟨step_inv hs.1 hstep, step_routed hs.1 hs.2 hstep⟩

/-- During one lifetime of a session its routes only advance. -/
theorem run_advances {s s' : Sys} {as : List Action} (hinv : Inv s) (hr : Routed s)
    (h : exec step s as = some s') {id : String} (hopen : .closeSession id ∉ as)
    {session : Session} (hs : s.table.sessions.lookup id = some session) :
    ∃ session', s'.table.sessions.lookup id = some session' ∧
      ∀ g route, session.routes.lookup g = some route →
        ∃ route', session'.routes.lookup g = some route' ∧ route.Advances route' := by
  induction as generalizing s session with
  | nil =>
    obtain rfl : s = s' := by simpa [exec] using h
    exact ⟨session, hs, fun g route hroute => ⟨route, hroute, .inl rfl⟩⟩
  | cons a as ih =>
    obtain ⟨mid, hmid, h⟩ := exec_cons.mp h
    rw [List.mem_cons, not_or] at hopen
    obtain ⟨session₁, hs₁, hadv⟩ :=
      (step_advanced hinv hr hmid).sessions id session hs (Ne.symm hopen.1)
    obtain ⟨session', hs', hrest⟩ :=
      ih (step_inv hinv hmid) (step_routed hinv hr hmid) h hopen.2 hs₁
    refine ⟨session', hs', ?_⟩
    intro g route hroute
    obtain ⟨route₁, hroute₁, hfirst, -⟩ := hadv g route hroute
    obtain ⟨route', hroute', hlast⟩ := hrest g route₁ hroute₁
    exact ⟨route', hroute', hfirst.trans hlast⟩

/-- In every run and every lifetime of a session, a route keeps its revision only with its source
and mode, and its revision never decreases. While a group has commands before and after a step,
the step changes neither its routes nor its default. -/
theorem routes_pinned {config : Configuration} {as : List Action} {s : Sys}
    (h : exec step (Sys.initial config) as = some s) :
    (∀ bs s' id session g route, exec step s bs = some s' → .closeSession id ∉ bs →
      s.table.sessions.lookup id = some session → session.routes.lookup g = some route →
        ∃ session' route', s'.table.sessions.lookup id = some session' ∧
          session'.routes.lookup g = some route' ∧ route.revision ≤ route'.revision ∧
          (route'.revision = route.revision →
            route'.sourceID = route.sourceID ∧ route'.automatic = route.automatic)) ∧
    (∀ a s' g, step s a = some s' → s.table.commands.pendingCount g > 0 →
      s'.table.commands.pendingCount g > 0 →
        (∀ id session session' route, s.table.sessions.lookup id = some session →
          s'.table.sessions.lookup id = some session' → session.routes.lookup g = some route →
            session'.routes.lookup g = some route) ∧
        (∀ group, s.table.config.groups.lookup g = some group →
          ∃ group', s'.table.config.groups.lookup g = some group' ∧
            group'.defaultSourceID = group.defaultSourceID)) := by
  obtain ⟨hinv, hr⟩ := run_routed h
  constructor
  · intro bs s' id session g route hrun hopen hs hroute
    obtain ⟨session', hs', hadv⟩ := run_advances hinv hr hrun hopen hs
    obtain ⟨route', hroute', hadvances⟩ := hadv g route hroute
    refine ⟨session', route', hs', hroute', ?_⟩
    rcases hadvances with rfl | hlt
    · exact ⟨Nat.le_refl _, fun _ => ⟨rfl, rfl⟩⟩
    · exact ⟨Nat.le_of_lt hlt, fun heq => absurd heq (by omega)⟩
  · intro a s' g hstep hbefore hafter
    have hadvanced := step_advanced hinv hr hstep
    refine ⟨?_, fun group hgroup => hadvanced.defaults g group hgroup ⟨hbefore, hafter⟩⟩
    intro id session session' route hs hs' hroute
    have hopen : a ≠ .closeSession id := by
      rintro rfl
      exact absurd hs' (by simp [closed_session hstep])
    obtain ⟨session₁, hs₁, hadv⟩ := hadvanced.sessions id session hs hopen
    obtain rfl : session' = session₁ := Option.some.inj (hs'.symm.trans hs₁)
    obtain ⟨route', hroute', -, hpinned⟩ := hadv g route hroute
    rw [hroute', hpinned ⟨hbefore, hafter⟩]

/-- Two writes of a session in a group. -/
theorem routes_pinned_twoWrites :
    ∃ s, exec step (Sys.initial oneSource) twoWrites = some s ∧
      ∀ s', step s (.finishCommand "a" .received 0 "" 4) = some s' →
        s'.table.commands.pendingCount "G" > 0 →
        ∀ session session' route, s.table.sessions.lookup "session" = some session →
          s'.table.sessions.lookup "session" = some session' →
          session.routes.lookup "G" = some route → session'.routes.lookup "G" = some route := by
  have hrun : (exec step (Sys.initial oneSource) twoWrites).any
      (fun s => decide (s.table.commands.pendingCount "G" > 0)) = true := by decide +kernel
  obtain ⟨s, hs, hcount⟩ := (Option.any_eq_true _ _).mp hrun
  refine ⟨s, hs, ?_⟩
  intro s' hstep hafter session session' route
  exact ((routes_pinned hs).2 _ s' "G" hstep (by simpa using hcount) hafter).1 "session" session
    session' route

end RcdServer.Routes
