import RcdServer.Routes.Runs

/-!
# What the operations on sessions do

One lemma for each operation that changes a session or the configuration, in the form the proofs
about routes use: which route of which session changes, and what was checked before.
-/
namespace RcdServer.Routes.RouteTable

open Lib

variable {t : RouteTable}

theorem openSession_eq_ok {id : String} {automatic : Map String Bool} {now : Time}
    {out : RouteTable × Session} (h : t.openSession id automatic now = .ok out) :
    out.1 = { t with sessions := t.sessions.insert id out.2 } ∧
      ((∃ existing, t.sessions.lookup id = some existing ∧ out.2.routes = existing.routes) ∨
        (t.sessions.lookup id = none ∧
          ∀ g route, out.2.routes.lookup g = some route → ∃ group,
            t.config.groups.lookup g = some group ∧
              route.sourceID = selectableDefault t.config g group)) := by
  unfold openSession at h
  split at h
  · cases h
  cases hs : t.sessions.lookup id with
  | some existing =>
    simp only [hs, Except.ok.injEq] at h
    subst h
    exact ⟨rfl, .inl ⟨existing, rfl, rfl⟩⟩
  | none =>
    simp only [hs, Except.ok.injEq] at h
    subst h
    refine ⟨rfl, .inr ⟨rfl, ?_⟩⟩
    intro g route hroute
    rw [Map.lookup_mapValues, Option.map_eq_some_iff] at hroute
    obtain ⟨group, hgroup, rfl⟩ := hroute
    exact ⟨group, hgroup, rfl⟩

theorem touchSession_eq_ok {id : String} {now : Time} {t' : RouteTable}
    (h : t.touchSession id now = .ok t') :
    ∃ s, t.sessions.lookup id = some s ∧
      t' = { t with sessions := t.sessions.insert id { s with lastSeenAt := now } } := by
  unfold touchSession at h
  cases hs : t.sessions.lookup id with
  | none => simp [hs] at h
  | some s =>
    simp only [hs, Except.ok.injEq] at h
    exact ⟨s, rfl, h.symm⟩

/-- A selection or a change of mode: one route of a group without commands gets the next
revision, and a source only after it was validated. -/
structure Reroute (t : RouteTable) (id g : String) (route : GroupRoute) (t' : RouteTable) : Prop where
  unpinned : ¬t.commands.pendingCount g > 0
  found : ∃ s old seen, t.sessions.lookup id = some s ∧ s.routes.lookup g = some old ∧
    route.revision = old.revision + 1 ∧
    (route.sourceID = old.sourceID ∨ t.config.validateSource g route.sourceID = .ok ()) ∧
    t' = t.setRoute id { s with lastSeenAt := seen } g route

theorem selectRoute_eq_ok {sessionID groupID sourceID : String} {expected : Nat} {automatic : Bool}
    {now : Time} {out : RouteTable × GroupRoute}
    (h : t.selectRoute sessionID groupID sourceID expected automatic now = .ok out) :
    Reroute t sessionID groupID out.2 out.1 := by
  unfold selectRoute at h
  split at h
  · cases h
  rename_i hpending
  cases hs : t.sessions.lookup sessionID with
  | none => simp [hs] at h
  | some s =>
    simp only [hs] at h
    cases hr : s.routes.lookup groupID with
    | none => simp [hr] at h
    | some route =>
      simp only [hr] at h
      split at h
      · cases h
      cases hv : t.config.validateSource groupID sourceID with
      | error e => simp [hv] at h
      | ok u =>
        simp only [hv] at h
        split at h
        · cases h
        cases h
        exact ⟨hpending, s, route, now, hs, hr, rfl, .inr hv, rfl⟩

theorem setAutomatic_eq_ok {sessionID groupID : String} {automatic : Bool} {revision : Nat}
    {out : RouteTable × GroupRoute}
    (h : t.setAutomatic sessionID groupID automatic revision = .ok out) :
    Reroute t sessionID groupID out.2 out.1 := by
  unfold setAutomatic at h
  cases hs : t.sessions.lookup sessionID with
  | none => simp [hs] at h
  | some s =>
    simp only [hs] at h
    cases hr : s.routes.lookup groupID with
    | none => simp [hr] at h
    | some route =>
      simp only [hr] at h
      split at h
      · cases h
      split at h
      · cases h
      rename_i hpending
      cases h
      exact ⟨hpending, s, route, s.lastSeenAt, hs, hr, rfl, .inl rfl, rfl⟩

theorem setDefault_eq_ok {groupID sourceID : String} {expected : Nat} {t' : RouteTable}
    (h : t.setDefault groupID sourceID expected = .ok t') :
    ¬t.commands.pendingCount groupID > 0 ∧ ∃ group,
      ∃ hv : t.config.validateSource groupID sourceID = .ok (),
      t.config.groups.lookup groupID = some group ∧
        t' = { t with config := t.config.setDefault groupID group sourceID hv } := by
  unfold setDefault at h
  split at h
  · cases h
  rename_i hpending
  refine ⟨hpending, ?_⟩
  cases hg : t.config.groups.lookup groupID with
  | none => simp [hg] at h
  | some group =>
    simp only [hg] at h
    split at h
    · cases h
    split at h
    · cases h
    · rename_i hv
      cases h
      exact ⟨group, hv, rfl, rfl⟩

end RcdServer.Routes.RouteTable
