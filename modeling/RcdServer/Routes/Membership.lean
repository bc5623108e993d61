import RcdServer.Routes.Pinning

/-!
# Commands and routes keep a configured source

The validator looks for the uses of a source that is removed or loses a group. The source of a
removed group is exempt, so the commands that the source executes for another group have to be
excluded by the run.
-/
namespace RcdServer.Routes

open Lib Lib.Run Reservations RouteTable

/-- The command is executing or queued. -/
def Reservations.Holds (r : Reservations) (c : PendingCommand) : Prop :=
  (∃ key, r.pendingByKey.lookup key = some c) ∨ ∃ id, r.queuedByID.lookup id = some c

def RouteMember (config : Configuration) (g : String) (route : GroupRoute) : Prop :=
  route.sourceID ≠ "" →
    ∃ s, config.sources.lookup route.sourceID = some s ∧ s.hasGroup g = true

/-- Every command and every route of the table finds its source in `config`. -/
structure Covers (t : RouteTable) (config : Configuration) : Prop where
  commands : ∀ c, t.commands.Holds c → Placed config c
  routes : ∀ id session g route, t.sessions.lookup id = some session →
    session.routes.lookup g = some route → RouteMember config g route

/-! ## The validator -/

section Validator

variable {t : RouteTable} {candidate : Configuration}

/-- A source that is not in use has neither commands nor routes. -/
theorem not_used_of_sourceInUse {id : String} (h : t.sourceInUse id = false) :
    (∀ c, t.commands.Holds c → c.sourceID ≠ id) ∧
      ∀ sid session g route, t.sessions.lookup sid = some session →
        session.routes.lookup g = some route → route.sourceID ≠ id := by
  simp only [sourceInUse, Bool.or_eq_false_iff, List.any_eq_false, beq_iff_eq] at h
  obtain ⟨⟨⟨hqueued, -⟩, hsessions⟩, hexecuting⟩ := h
  constructor
  · intro c hc
    rcases hc with ⟨key, hc⟩ | ⟨id', hc⟩
    · exact hexecuting ⟨key, c⟩ (Map.mem_entries.mpr hc)
    · exact hqueued ⟨id', c⟩ (Map.mem_entries.mpr hc)
  · intro sid session g route hs hroute heq
    refine hsessions ⟨sid, session⟩ (Map.mem_entries.mpr hs) ?_
    rw [List.any_eq_true]
    exact ⟨⟨g, route⟩, Map.mem_entries.mpr hroute, by simpa using heq⟩

/-- A group that the candidate removes has neither commands nor sessions. -/
theorem removed_group (hsound : t.commands.Sound)
    (hvalid : t.validateConfigurationTransition candidate = .ok ()) {g : String}
    (hg : g ∈ t.config.groups) (hremoved : g ∉ candidate.groups) :
    (∀ c, t.commands.Holds c → c.groupID ≠ g) ∧ t.sessions.entries = [] := by
  obtain ⟨group, hgroup⟩ := Map.mem_iff.mp hg
  rcases validateGroups_eq_ok (validateConfigurationTransition_eq_ok hvalid).1 ⟨g, group⟩
    (Map.mem_entries.mpr hgroup) with ⟨next, hnext, -⟩ | ⟨-, hidle, hempty⟩
  · exact absurd (Map.mem_iff.mpr ⟨next, hnext⟩) hremoved
  · refine ⟨?_, hempty⟩
    rintro c hc rfl
    exact hidle (hsound.pendingCount_pos hc)

theorem hasGroup_of_sameGroupBindings {new old : Source}
    (hold : validateGroupBindings old.groupBindings = .ok ())
    (hsame : sameGroupBindings new.groupBindings old.groupBindings = true) {g : String}
    (h : old.hasGroup g = true) : g = old.groupID ∨ new.hasGroup g = true := by
  rw [Source.hasGroup_iff] at h ⊢
  rcases List.mem_cons.mp h with rfl | hmem
  · exact .inl rfl
  · obtain ⟨b, hb, rfl⟩ := List.mem_map.mp hmem
    have hb' := (mem_iff_of_sameGroupBindings (nodup_of_validateGroupBindings hold) hsame b).mpr hb
    exact .inr (List.mem_cons_of_mem _ (List.mem_map_of_mem hb'))

/-- What the validator establishes for one use, by a command or by a route of a session, of a
source in the group `g`. -/
theorem member_of_valid (hsound : t.commands.Sound)
    (hvalid : t.validateConfigurationTransition candidate = .ok ()) {id g : String} {old : Source}
    (hold : t.config.sources.lookup id = some old) (hg : old.hasGroup g = true)
    (huse : (∃ c, t.commands.Holds c ∧ c.sourceID = id ∧ c.groupID = g) ∨
      ∃ sid session route, t.sessions.lookup sid = some session ∧
        session.routes.lookup g = some route ∧ route.sourceID = id)
    (hremoved : candidate.sources.lookup id = none → old.groupID ∉ candidate.groups →
      ∀ c, t.commands.Holds c → c.sourceID = id → c.groupID ∉ candidate.groups) :
    ∃ new, candidate.sources.lookup id = some new ∧ new.hasGroup g = true := by
  have hhome : ∀ g', old.hasGroup g' = true → g' ∈ t.config.groups := fun g' hg' =>
    t.config.housed id old hold g' (Source.hasGroup_iff.mp hg')
  have hprimary : old.groupID ∈ t.config.groups := hhome old.groupID (by simp [Source.hasGroup])
  have hunused : t.sourceInUse id = true := by
    by_contra hnot
    have hnone := not_used_of_sourceInUse (Bool.not_eq_true _ ▸ hnot)
    rcases huse with ⟨c, hc, hid, -⟩ | ⟨sid, session, route, hs, hroute, hid⟩
    · exact hnone.1 c hc hid
    · exact hnone.2 sid session g route hs hroute hid
  have hsessions : t.sessions.entries = [] → ∃ c, t.commands.Holds c ∧ c.sourceID = id ∧
      c.groupID = g := by
    intro hempty
    rcases huse with huse | ⟨sid, session, route, hs, -, -⟩
    · exact huse
    · have hmem := Map.mem_entries.mpr hs
      simp [hempty] at hmem
  have htransition := validateSources_eq_ok (validateConfigurationTransition_eq_ok hvalid).2
    ⟨id, old⟩ (Map.mem_entries.mpr hold)
  -- A source in use is removed, or loses its primary group, only with that group.
  have hremoval : t.validateRemoval candidate id old = .ok () →
      old.groupID ∉ candidate.groups := by
    intro hok hmem
    simp only [validateRemoval, hunused, if_true] at hok
    split at hok
    · rename_i hnot
      exact hnot hmem
    · cases hok
  unfold validateSourceTransition at htransition
  cases hnew : candidate.sources.lookup id with
  | none =>
    simp only [hnew] at htransition
    have hgone := hremoval htransition
    obtain ⟨c, hc, hid, rfl⟩ := hsessions (removed_group hsound hvalid hprimary hgone).2
    have hgroup := hremoved hnew hgone c hc hid
    exact absurd rfl ((removed_group hsound hvalid (hhome _ hg) hgroup).1 c hc)
  | some new =>
    refine ⟨new, rfl, ?_⟩
    simp only [hnew] at htransition
    split at htransition
    · rename_i hsame
      have hkept := hasGroup_of_sameGroupBindings (t.config.bound id old hold) hsame hg
      split at htransition
      · rename_i hgroupID
        rcases hkept with rfl | hkept
        · simp [Source.hasGroup, hgroupID]
        · exact hkept
      · have hgone := hremoval htransition
        obtain ⟨hidle, hempty⟩ := removed_group hsound hvalid hprimary hgone
        obtain ⟨c, hc, -, hcg⟩ := hsessions hempty
        rcases hkept with rfl | hkept
        · exact absurd hcg (hidle c hc)
        · exact hkept
    · -- Changed bindings: neither sessions nor commands of the groups concerned.
      split at htransition
      · cases htransition
      rename_i hempty
      split at htransition
      · cases htransition
      rename_i hidle
      obtain ⟨c, hc, -, rfl⟩ := hsessions (by simpa using hempty)
      have hpending := hsound.pendingCount_pos hc
      refine absurd ?_ hidle
      rw [List.any_eq_true]
      exact ⟨c.groupID, List.mem_append_left _ (Source.hasGroup_iff.mp hg), by simpa using hpending⟩

end Validator

/-! ## The invariant -/

/-- No source goes with its primary group while it has a command of a group that stays. -/
def RemovesIdleSources (s : Sys) (candidate : Configuration) : Prop :=
  ∀ id old, s.table.config.sources.lookup id = some old → candidate.sources.lookup id = none →
    old.groupID ∉ candidate.groups →
      ∀ c, s.table.commands.Holds c → c.sourceID = id → c.groupID ∉ candidate.groups

/-- The condition on a change of configuration. -/
def KeepsSources (s : Sys) : Action → Prop
  | .applyConfiguration groups sources =>
    ∀ candidate, newConfiguration groups sources = .ok candidate → RemovesIdleSources s candidate
  | .prepareConfiguration groups sources =>
    ∀ candidate, newConfiguration groups sources = .ok candidate → RemovesIdleSources s candidate
  | _ => True

structure Member (s : Sys) : Prop where
  covers : Covers s.table s.table.config
  committing : ∀ candidate, s.committing = some candidate → Covers s.table candidate

theorem member_initial (config : Configuration) : Member (Sys.initial config) where
  covers := by
    constructor
    · intro c hc
      rcases hc with ⟨key, hc⟩ | ⟨id, hc⟩ <;>
        simp [Sys.initial, RouteTable.new, Reservations.empty] at hc
    · intro id session g route hs
      simp [Sys.initial, RouteTable.new] at hs
  committing := by simp [Sys.initial]

/-- A validated candidate covers the table. -/
theorem covers_of_valid {s : Sys} {candidate : Configuration} (hsound : s.table.commands.Sound)
    (hm : Covers s.table s.table.config)
    (hvalid : s.table.validateConfigurationTransition candidate = .ok ())
    (hidle : RemovesIdleSources s candidate) : Covers s.table candidate where
  commands := by
    intro c hc
    obtain ⟨old, hold, hg⟩ := hm.commands c hc
    exact member_of_valid hsound hvalid hold hg (.inl ⟨c, hc, rfl, rfl⟩)
      (hidle c.sourceID old hold)
  routes := by
    intro id session g route hs hroute hne
    obtain ⟨old, hold, hg⟩ := hm.routes id session g route hs hroute hne
    exact member_of_valid hsound hvalid hold hg (.inr ⟨id, session, route, hs, hroute, rfl⟩)
      (hidle route.sourceID old hold)

section Steps

variable {s s' : Sys} {a : Action}

/-- Commands after a step: those before it, with their source and group, or one that was placed. -/
theorem step_placed (hinv : Inv s) (h : step s a = some s') {config : Configuration}
    (hold : ∀ c, s.table.commands.Holds c → Placed config c)
    (hnew : s.committing = none → ∀ c, Placed s.table.config c → Placed config c) :
    ∀ c, s'.table.commands.Holds c → Placed config c := by
  intro c hc
  have hadded : ∀ (new : PendingCommand), s.committing = none → Placed s.table.config new →
      (c = new ∨ s.table.commands.Holds c) → Placed config c := by
    rintro new hunlocked hplaced (rfl | hc)
    · exact hnew hunlocked c hplaced
    · exact hold c hc
  cases step_change hinv.sound h with
  | removed hmoves _ _ _ =>
    refine hold c ?_
    rcases hc with ⟨key, hc⟩ | ⟨id, hc⟩
    · exact .inl ⟨key, hmoves.executing hc⟩
    · exact .inr ⟨id, hmoves.queued hc⟩
  | begun new hunlocked _ hplaced _ _ hs' =>
    subst hs'
    refine hadded new hunlocked hplaced ?_
    rcases hc with ⟨key, hc⟩ | hc
    · rcases lookup_addExecuting hc with ⟨-, rfl⟩ | ⟨-, hc⟩
      · exact .inl rfl
      · exact .inr (.inl ⟨key, hc⟩)
    · exact .inr (.inr hc)
  | restored new _ hunlocked _ hplaced _ hs' =>
    subst hs'
    refine hadded new hunlocked hplaced ?_
    rcases hc with ⟨key, hc⟩ | hc
    · rcases lookup_addExecuting hc with ⟨-, rfl⟩ | ⟨-, hc⟩
      · exact .inl rfl
      · exact .inr (.inl ⟨key, hc⟩)
    · exact .inr (.inr hc)
  | enqueued new hunlocked _ hplaced _ _ _ hs' =>
    subst hs'
    refine hadded new hunlocked hplaced ?_
    rcases hc with hc | ⟨id, hc⟩
    · exact .inr (.inl hc)
    · rw [show (s.table.commands.addQueued new).queuedByID.lookup id =
        if id = new.id then some new else s.table.commands.queuedByID.lookup id
        from Map.lookup_insert_eq] at hc
      split at hc
      · exact .inl (Option.some.inj hc).symm
      · exact .inr (.inr ⟨id, hc⟩)
  | activated old r _ hmove hs' =>
    subst hs'
    rcases hc with ⟨key, hc⟩ | ⟨id, hc⟩
    · rcases hmove.executing hc with ⟨-, rfl⟩ | ⟨-, hc⟩
      · exact hold old (.inr ⟨old.id, hmove.queued⟩)
      · exact hold c (.inl ⟨key, hc⟩)
    · exact hold c (.inr ⟨id, hmove.still_queued hc⟩)

/-- Routes that were only narrowed. -/
theorem narrowed_routes {zero : String → Prop} {config : Configuration} {t t' : RouteTable}
    (hnarrow : Narrowed zero t t')
    (h : ∀ id session g route, t.sessions.lookup id = some session →
      session.routes.lookup g = some route → RouteMember config g route) :
    ∀ id session g route, t'.sessions.lookup id = some session →
      session.routes.lookup g = some route → RouteMember config g route := by
  intro id session' g route' hs' hroute'
  rcases hnarrow.sessions id with ⟨-, hnone⟩ | ⟨session, session₁, hs, hs₁, hn⟩
  · simp [hs'] at hnone
  · obtain rfl : session' = session₁ := Option.some.inj (hs'.symm.trans hs₁)
    rcases hn g with hsame | ⟨-, -, route₂, -, hroute₂, hempty, -⟩
    · exact h id session g route' hs (hsame ▸ hroute')
    · obtain rfl : route' = route₂ := Option.some.inj (hroute'.symm.trans hroute₂)
      exact fun hne => absurd hempty hne

theorem selectableDefault_member {config : Configuration} {g : String} {group : Group}
    {route : GroupRoute} (h : route.sourceID = selectableDefault config g group) :
    RouteMember config g route := by
  intro hne
  unfold selectableDefault at h
  split at h
  · rename_i hok
    cases hv : config.validateSource g group.defaultSourceID with
    | error e =>
      rw [hv] at hok
      cases hok.2
    | ok u => exact h ▸ Configuration.validateSource_eq_ok hv
  · exact absurd h hne

/-- The routes of an applied configuration. -/
theorem applied_routes {t : RouteTable} {config : Configuration}
    (h : ∀ id session g route, t.sessions.lookup id = some session →
      session.routes.lookup g = some route → RouteMember config g route) :
    ∀ id session g route, (t.applyConfiguration config).sessions.lookup id = some session →
      session.routes.lookup g = some route → RouteMember config g route := by
  intro id session' g route' hs' hroute'
  rw [applyConfiguration, Map.lookup_mapValues, Option.map_eq_some_iff] at hs'
  obtain ⟨session, hs, rfl⟩ := hs'
  obtain ⟨route, rfl, -, hsource⟩ := lookup_applyToSession hroute'
  have hmember : RouteMember config g route := by
    rcases hsource with hroute | ⟨group, -, hdefault⟩
    · exact h id session g route hs hroute
    · exact selectableDefault_member hdefault
  rcases revalidateRoute_cases config _ g route with heq | ⟨-, heq⟩
  · rw [heq]
    exact hmember
  · rw [heq]
    exact fun hne => absurd rfl hne

theorem Covers.apply {t : RouteTable} {config : Configuration} (h : Covers t config) :
    Covers (t.applyConfiguration config) config :=
  ⟨h.commands, applied_routes h.routes⟩

theorem Covers.mergePersisted {t : RouteTable} {config : Configuration} (h : Covers t config)
    (revisions : Map String Nat) : Covers t (config.mergePersisted revisions) :=
  ⟨h.commands, h.routes⟩

theorem insert_routes {t : RouteTable} {config : Configuration} {id : String} {session : Session}
    (h : ∀ id session g route, t.sessions.lookup id = some session →
      session.routes.lookup g = some route → RouteMember config g route)
    (hsession : ∀ g route, session.routes.lookup g = some route → RouteMember config g route) :
    ∀ id' session' g route, (t.sessions.insert id session).lookup id' = some session' →
      session'.routes.lookup g = some route → RouteMember config g route := by
  intro id' session' g route hs hroute
  rw [Map.lookup_insert_eq] at hs
  split at hs
  · cases hs
    exact hsession g route hroute
  · exact h id' session' g route hs hroute

theorem step_covers (hinv : Inv s) (hm : Member s) (hok : KeepsSources s a)
    (h : step s a = some s') : Covers s'.table s'.table.config := by
  have hcommands := step_placed hinv h hm.covers.commands fun _ _ hplaced => hplaced
  have hroutes := hm.covers.routes
  cases step_routing hinv.sound h with
  | kept hnarrow _ =>
    rw [hnarrow.config]
    exact ⟨hcommands, narrowed_routes hnarrow hroutes⟩
  | opened id session _ hdefaults htable _ =>
    rw [htable] at hcommands ⊢
    refine ⟨hcommands, insert_routes hroutes ?_⟩
    intro g route hroute
    obtain ⟨group, -, hdefault⟩ := hdefaults g route hroute
    exact selectableDefault_member hdefault
  | closed id _ htable _ =>
    rw [htable] at hcommands ⊢
    refine ⟨hcommands, ?_⟩
    intro id' session g route hs hroute
    rw [closeSession, Map.lookup_erase_eq] at hs
    split at hs
    · cases hs
    · exact hroutes id' session g route hs hroute
  | rerouted id g route hroute _ =>
    obtain ⟨-, session, old, seen, hs, hold, -, hsource, htable⟩ := hroute
    rw [htable] at hcommands ⊢
    refine ⟨hcommands, insert_routes hroutes ?_⟩
    intro g' route' hroute'
    rw [Map.lookup_insert_eq] at hroute'
    split at hroute'
    · rename_i heq
      cases hroute'
      rw [heq]
      intro hne
      rcases hsource with hsame | hvalid
      · rw [hsame] at hne ⊢
        exact hroutes id session g old hs hold hne
      · exact Configuration.validateSource_eq_ok hvalid
    · exact hroutes id session g' route' hs hroute'
  | defaulted g sourceID group _ _ _ htable _ =>
    rw [htable] at hcommands ⊢
    exact ⟨hcommands, hroutes⟩
  | applied groups sources candidate ha hcandidate hvalid htable _ =>
    subst ha
    rw [htable]
    exact (covers_of_valid hinv.sound hm.covers hvalid (hok candidate hcandidate)).apply
  | prepared _ _ _ _ _ _ htable _ =>
    rw [htable] at hcommands ⊢
    exact ⟨hcommands, hroutes⟩
  | abandoned htable _ =>
    rw [htable] at hcommands ⊢
    exact ⟨hcommands, hroutes⟩
  | published candidate revisions hcommitting htable _ =>
    rw [htable]
    exact ((hm.committing candidate hcommitting).mergePersisted revisions).apply

theorem step_member (hinv : Inv s) (hm : Member s) (hok : KeepsSources s a)
    (h : step s a = some s') : Member s' where
  covers := step_covers hinv hm hok h
  committing := by
    intro candidate hcandidate
    cases step_routing hinv.sound h with
    | kept hnarrow hcommitting =>
      rw [hcommitting] at hcandidate
      have hbefore := hm.committing candidate hcandidate
      refine ⟨step_placed hinv h hbefore.commands ?_, narrowed_routes hnarrow hbefore.routes⟩
      intro hunlocked
      simp [hunlocked] at hcandidate
    | prepared groups sources candidate' ha hnew hvalid htable hcommitting =>
      obtain rfl : candidate = candidate' := by simpa [hcommitting] using hcandidate.symm
      subst ha
      rw [htable]
      exact covers_of_valid hinv.sound hm.covers hvalid (hok candidate hnew)
    | opened _ _ _ _ _ hfree => simp [hfree] at hcandidate
    | closed _ _ _ hfree => simp [hfree] at hcandidate
    | rerouted _ _ _ _ hfree => simp [hfree] at hcandidate
    | defaulted _ _ _ _ _ _ _ hfree => simp [hfree] at hcandidate
    | applied _ _ _ _ _ _ _ hfree => simp [hfree] at hcandidate
    | abandoned _ hfree => simp [hfree] at hcandidate
    | published _ _ _ _ hfree => simp [hfree] at hcandidate

end Steps

/-! ## Runs -/

/-- In every run that removes a source with its primary group only when the source has no command
of a group that stays: the source of every executing or queued command is configured and a member
of the command's group, and so is the source of every route and of every default. -/
theorem sources_stay_configured {config : Configuration} {as : List Action} {s : Sys}
    (hok : Meets step KeepsSources (Sys.initial config) as)
    (h : exec step (Sys.initial config) as = some s) :
    (∀ c, s.table.commands.Holds c → ∃ source,
      s.table.config.sources.lookup c.sourceID = some source ∧ source.hasGroup c.groupID = true) ∧
    (∀ id session g route, s.table.sessions.lookup id = some session →
      session.routes.lookup g = some route → route.sourceID ≠ "" → ∃ source,
        s.table.config.sources.lookup route.sourceID = some source ∧ source.hasGroup g = true) ∧
    (∀ g group, s.table.config.groups.lookup g = some group → group.defaultSourceID ≠ "" →
      ∃ source, s.table.config.sources.lookup group.defaultSourceID = some source ∧
        source.hasGroup g = true) := by
  have hmember : Inv s ∧ Member s := by
    refine meets_invariant KeepsSources (fun s => Inv s ∧ Member s) ?_
      ⟨inv_initial config, member_initial config⟩ hok h
    intro s a s' hs hok hstep
    exact ⟨step_inv hs.1 hstep, step_member hs.1 hs.2 hok hstep⟩
  exact ⟨hmember.2.covers.commands, hmember.2.covers.routes, s.table.config.defaulted⟩

theorem sources_stay_configured_twoWrites :
    ∃ s, exec step (Sys.initial oneSource) twoWrites = some s ∧
      s.table.commands.pendingCount "G" = 2 ∧
      ∀ c, s.table.commands.Holds c → ∃ source,
        s.table.config.sources.lookup c.sourceID = some source ∧
          source.hasGroup c.groupID = true := by
  have hrun : (exec step (Sys.initial oneSource) twoWrites).any
      (fun s => decide (s.table.commands.pendingCount "G" = 2)) = true := by decide +kernel
  obtain ⟨s, hs, hcount⟩ := (Option.any_eq_true _ _).mp hrun
  have hok : Meets step KeepsSources (Sys.initial oneSource) twoWrites := by
    simp only [twoWrites, Meets, KeepsSources, true_and]
    exact fun _ _ _ _ _ _ _ _ => trivial
  exact ⟨s, hs, by simpa using hcount, (sources_stay_configured hok hs).1⟩

/-- A source with the primary group `G1`, bound to `G2` as well. -/
def boundSource : Configuration :=
  .ofLists [⟨"G1", "", 1⟩, ⟨"G2", "", 1⟩]
    [⟨"S", "G1", [⟨"G2", "COM1", "1"⟩], ["G2"], true, .ready⟩] (by decide +kernel)

/-- The group `G1` and its source are removed while the source has a queued command of `G2`. -/
theorem removed_source_has_command :
    ∃ s, exec step (Sys.initial boundSource)
        [.openSession "session" ∅ 1, .selectRoute "session" "G2" "S" 1 false 2,
          .enqueueWrite "session" "G2" "COM1" "node" "1" "a" 3, .closeSession "session",
          .applyConfiguration [⟨"G2", "", 1⟩] []] = some s ∧
      ∃ c, s.table.commands.Holds c ∧ c.groupID = "G2" ∧
        s.table.config.sources.lookup c.sourceID = none := by
  have hrun : (exec step (Sys.initial boundSource)
      [.openSession "session" ∅ 1, .selectRoute "session" "G2" "S" 1 false 2,
        .enqueueWrite "session" "G2" "COM1" "node" "1" "a" 3, .closeSession "session",
        .applyConfiguration [⟨"G2", "", 1⟩] []]).any
      (fun s => (s.table.commands.queuedByID.lookup "a").any fun c =>
        c.groupID == "G2" && s.table.config.sources.lookup c.sourceID == none) = true := by
    decide +kernel
  obtain ⟨s, hs, hqueued⟩ := (Option.any_eq_true _ _).mp hrun
  obtain ⟨c, hc, hgone⟩ := (Option.any_eq_true _ _).mp hqueued
  obtain ⟨hgroup, hsource⟩ := Bool.and_eq_true_iff.mp hgone
  exact ⟨s, hs, c, .inr ⟨"a", hc⟩, by simpa using hgroup, by simpa using hsource⟩

end RcdServer.Routes
