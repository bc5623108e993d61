import RcdServer.Lib.Spans
import RcdServer.Redundancy.Service

/-!
# What the stamps say

A tick changes the state of one group after the other. The stamp of a source is the time of the
first tick of the latest unbroken run of its observations since the last policy: whatever breaks the
run (another health, another identity, a tick without the source, a policy) starts a new one.
-/
namespace RcdServer.Redundancy

open Lib Lib.Spans

/-! ## One group in a tick -/

/-- A source's health and identity as a tick finds them in a group. -/
def observed (group source : String) (t : Tick) : Option (Bool × String) :=
  (t.groups.lookup group).bind fun e =>
    (e.members.lookup source).map fun m => (m.healthy, m.identity)

/-- Every stamp is the start of the run of its source's observations. -/
structure Stamped (group : String) (s : RedundancyState) (log : List Tick) : Prop where
  stamp : ∀ source h, s.health.lookup source = some h → ∃ identity start,
    s.identity.lookup source = some identity ∧
    runStart (observed group source) (h.healthy, identity) log = some start ∧ h.since = start.now
  none : ∀ source, s.health.lookup source = none →
    ∀ o, runStart (observed group source) o log = none

theorem stamped_nil {group : String} {s : RedundancyState}
    (h : ∀ source, s.health.lookup source = none) : Stamped group s [] := by
  refine ⟨fun source h' hh => ?_, fun _ _ _ => rfl⟩
  rw [h source] at hh
  cases hh

namespace RedundancyState

variable {s : RedundancyState} {now : Time}

/-- The stamp that an observation leaves. -/
def stampOf (s : RedundancyState) (now : Time) (id : String) (m : Member) : Time :=
  match s.health.lookup id with
  | none => now
  | some old =>
    if old.healthy ≠ m.healthy ∨ (s.identity.lookup id).getD "" ≠ m.identity then now
    else old.since

theorem lookup_observe (id id' : String) (m : Member) :
    (s.observe now id m).health.lookup id' =
      (if id' = id then some ⟨id, m.healthy, m.reason, s.stampOf now id m⟩
        else s.health.lookup id') ∧
    (s.observe now id m).identity.lookup id' =
      if id' = id then some m.identity else s.identity.lookup id' :=
  ⟨Map.lookup_insert_eq, Map.lookup_insert_eq⟩

theorem stampOf_observe {id id' : String} (hne : id' ≠ id) (m m' : Member) :
    (s.observe now id m).stampOf now id' m' = s.stampOf now id' m' := by
  unfold stampOf
  rw [(lookup_observe id id' m).1, (lookup_observe id id' m).2, if_neg hne, if_neg hne]

/-- All members are observed, each against the stamps before the tick. -/
theorem lookup_observeAll {es : List (Sigma fun _ : String => Member)} (hnodup : es.NodupKeys)
    (id : String) :
    (es.foldl (fun s m => s.observe now m.1 m.2) s).health.lookup id =
      ((es.dlookup id).map fun m => ⟨id, m.healthy, m.reason, s.stampOf now id m⟩).or
        (s.health.lookup id) ∧
    (es.foldl (fun s m => s.observe now m.1 m.2) s).identity.lookup id =
      ((es.dlookup id).map (·.identity)).or (s.identity.lookup id) := by
  induction es generalizing s with
  | nil => exact ⟨rfl, rfl⟩
  | cons e es ih =>
    obtain ⟨id₀, m⟩ := e
    obtain ⟨hnew, hrest⟩ := List.nodupKeys_cons.mp hnodup
    rw [List.foldl_cons, (ih hrest).1, (ih hrest).2]
    by_cases hid : id = id₀
    · subst hid
      rw [List.dlookup_eq_none.mpr hnew, List.dlookup_cons_eq, (lookup_observe id id m).1,
        (lookup_observe id id m).2]
      simp
    · rw [List.dlookup_cons_ne _ _ hid, (lookup_observe id₀ id m).1, (lookup_observe id₀ id m).2]
      simp only [stampOf_observe hid, if_neg hid]
      exact ⟨trivial, trivial⟩

/-- The members of a group are observed, and others forgotten. -/
def observeMembers (s : RedundancyState) (now : Time) (members : Map String Member) :
    RedundancyState :=
  (members.entries.foldl (fun s m => s.observe now m.1 m.2) s).retainMembers members

theorem observeMembers_health (members : Map String Member) (id : String) :
    (s.observeMembers now members).health.lookup id =
      (members.lookup id).map fun m => ⟨id, m.healthy, m.reason, s.stampOf now id m⟩ := by
  have hall := (@lookup_observeAll s now _ members.nodupKeys id).1
  rw [show members.entries.dlookup id = members.lookup id from rfl] at hall
  show (Map.keep _ _).lookup id = _
  rw [Map.lookup_keep, hall]
  cases hm : members.lookup id with
  | none =>
    have hnew : id ∉ members := AList.lookup_eq_none.mp hm
    simp [hnew]
  | some m =>
    have hmem : id ∈ members := Map.mem_iff.mpr ⟨m, hm⟩
    simp [hmem]

theorem observeMembers_identity {members : Map String Member} {id : String} {m : Member}
    (hm : members.lookup id = some m) :
    (s.observeMembers now members).identity.lookup id = some m.identity := by
  have hall := (@lookup_observeAll s now _ members.nodupKeys id).2
  rw [show members.entries.dlookup id = members.lookup id from rfl, hm] at hall
  show (Map.keep _ _).lookup id = _
  rw [Map.lookup_keep, hall]
  have hmem : id ∈ members := Map.mem_iff.mpr ⟨m, hm⟩
  simp [hmem]

end RedundancyState

theorem runStart_tick {group source : String} {t : Tick} {log : List Tick} {o : Bool × String}
    (h : observed group source t = some o) :
    runStart (observed group source) o (t :: log) =
      some ((runStart (observed group source) o log).getD t) := by
  rw [runStart, if_pos h]

/-- A stamp goes on with the run, or starts with the tick. -/
theorem stamped_tick {group : String} {s : RedundancyState} {log : List Tick} {t : Tick}
    {e : GroupTick} (hs : Stamped group s log) (he : t.groups.lookup group = some e) :
    Stamped group (s.observeMembers t.now e.members) (t :: log) := by
  have hobserved : ∀ source, observed group source t =
      (e.members.lookup source).map fun m => (m.healthy, m.identity) := by
    intro source
    rw [observed, he, Option.bind_some]
  constructor
  · intro source h hh
    rw [RedundancyState.observeMembers_health] at hh
    obtain ⟨m, hm, rfl⟩ := Option.map_eq_some_iff.mp hh
    have ho : observed group source t = some (m.healthy, m.identity) := by
      rw [hobserved, hm, Option.map_some]
    refine ⟨m.identity, _, RedundancyState.observeMembers_identity hm, runStart_tick ho, ?_⟩
    show s.stampOf t.now source m = _
    unfold RedundancyState.stampOf
    cases hold : s.health.lookup source with
    | none => rw [hs.none source hold, Option.getD_none]
    | some old =>
      obtain ⟨identity, start, hidentity, hstart, hsince⟩ := hs.stamp source old hold
      simp only [hidentity, Option.getD_some]
      split
      · rename_i hchanged
        have hother : (m.healthy, m.identity) ≠ (old.healthy, identity) := by
          intro hsame
          obtain ⟨hhealthy, hsame⟩ := Prod.mk.inj hsame
          rcases hchanged with hchanged | hchanged
          · exact hchanged hhealthy.symm
          · exact hchanged hsame.symm
        rw [runStart_other hstart hother, Option.getD_none]
      · rename_i hsame
        simp only [not_or, not_not] at hsame
        rw [← hsame.1, ← hsame.2, hstart, Option.getD_some]
        exact hsince
  · intro source hnone o
    rw [RedundancyState.observeMembers_health, Option.map_eq_none_iff] at hnone
    rw [runStart, if_neg]
    rw [hobserved, hnone]
    simp

/-! ## The decision -/

namespace RedundancyState

variable {s : RedundancyState} {now : Time} {group : String} {p : RedundancyPolicy}

/-- A selection with a target. -/
theorem automaticSelection_target {pending : Bool}
    (h : (s.automaticSelection p pending now).2.target ≠ "") :
    pending = false ∧
    (∀ last, s.view.lastSwitchAt = some last → p.cooldownSeconds * second ≤ now - last) ∧
    (p.priority.find? fun id => (s.health.lookup id).any (stable now true p.healthySeconds)) =
      some (s.automaticSelection p pending now).2.target ∧
    (s.automaticSelection p pending now).1 = s ∧
    ∀ id ∈ (s.automaticSelection p pending now).2.failed, ∃ h, s.health.lookup id = some h ∧
      stable now false p.failureSeconds h = true := by
  unfold automaticSelection at h ⊢
  split at h
  · exact absurd rfl h
  rename_i hpending
  rw [if_neg hpending]
  split at h
  · exact absurd rfl h
  rename_i hcooldown
  rw [if_neg hcooldown]
  have hcool : ∀ last, s.view.lastSwitchAt = some last →
      p.cooldownSeconds * second ≤ now - last := by
    intro last hlast
    rw [hlast] at hcooldown
    simpa using hcooldown
  cases htarget : p.priority.find? fun id =>
      (s.health.lookup id).any (stable now true p.healthySeconds) with
  | none =>
    rw [htarget] at h
    exact absurd rfl h
  | some target =>
    rw [htarget] at h
    dsimp only at h ⊢
    split at h
    · exact absurd rfl h
    rename_i hnamed
    rw [if_neg hnamed]
    refine ⟨by simpa using hpending, hcool, rfl, rfl, ?_⟩
    intro id hid
    obtain ⟨e, he, rfl⟩ := List.mem_map.mp hid
    obtain ⟨he, hstable⟩ := List.mem_filter.mp he
    exact ⟨e.2, Map.mem_entries.mp he, hstable⟩

/-- Health and identities stay, and the last switch is the latest of those made. -/
structure Switched (s : RedundancyState) (now : Time) (group : String) (plan : Plan)
    (out : RedundancyState × List Switch) : Prop where
  health : out.1.health = s.health
  identity : out.1.identity = s.identity
  switches : ∀ w ∈ out.2, w.group = group ∧ w.time = now ∧ w.target = plan.target ∧
    plan.shouldSwitch w.source = true
  last : out.1.view.lastSwitchAt = if out.2.isEmpty then s.view.lastSwitchAt else some now

theorem Switched.none {plan : Plan} {s' : RedundancyState} (hhealth : s'.health = s.health)
    (hidentity : s'.identity = s.identity)
    (hlast : s'.view.lastSwitchAt = s.view.lastSwitchAt) :
    Switched s now group plan (s', []) :=
  ⟨hhealth, hidentity, by simp, by simpa using hlast⟩

theorem Switched.switchRoute {plan : Plan} {out : RedundancyState × List Switch}
    (h : Switched s now group plan out) (automatic : Bool) (source route : String)
    (answer : Except String Unit) :
    Switched s now group plan (switchRoute now group plan out automatic source route answer) := by
  unfold RedundancyState.switchRoute
  split
  · rename_i hswitch
    obtain ⟨-, hswitch⟩ := Bool.and_eq_true_iff.mp hswitch
    cases answer with
    | error e => exact ⟨h.health, h.identity, h.switches, h.last⟩
    | ok _ =>
      refine ⟨h.health, h.identity, ?_, rfl⟩
      intro w hw
      rcases List.mem_cons.mp hw with rfl | hw
      · exact ⟨rfl, rfl, rfl, hswitch⟩
      · exact h.switches w hw
  · exact h

theorem Switched.sessions {plan : Plan} {out : RedundancyState × List Switch}
    (h : Switched s now group plan out) (routes : List SessionRoute) :
    Switched s now group plan (routes.foldl
      (fun out r =>
        RedundancyState.switchRoute now group plan out r.automatic r.source ("Session " ++ r.session)
          r.answer) out) := by
  induction routes generalizing out with
  | nil => exact h
  | cons r routes ih => exact ih (h.switchRoute _ _ _ _)

theorem automaticRoutes_switched (s : RedundancyState) (now : Time) (group : String)
    (p : RedundancyPolicy) (t : GroupTick) :
    Switched s now group (s.automaticSelection p t.pending now).2
      (s.automaticRoutes now group p t) := by
  unfold automaticRoutes
  have hview : (s.automaticSelection p t.pending now).1.health = s.health ∧
      (s.automaticSelection p t.pending now).1.identity = s.identity ∧
      (s.automaticSelection p t.pending now).1.view.lastSwitchAt = s.view.lastSwitchAt := by
    unfold automaticSelection
    split
    · exact ⟨rfl, rfl, rfl⟩
    split
    · exact ⟨rfl, rfl, rfl⟩
    split
    · exact ⟨rfl, rfl, rfl⟩
    split <;> exact ⟨rfl, rfl, rfl⟩
  obtain ⟨hhealth, hidentity, hlast⟩ := hview
  generalize s.automaticSelection p t.pending now = selection at hhealth hidentity hlast ⊢
  obtain ⟨s₁, plan⟩ := selection
  dsimp only at hhealth hidentity hlast ⊢
  split
  · exact .none hhealth hidentity hlast
  split
  · exact .none hhealth hidentity hlast
  split
  · exact .none hhealth hidentity hlast
  have hfirst : Switched s now group plan (s₁, []) := .none hhealth hidentity hlast
  exact (hfirst.switchRoute _ _ _ _).sessions t.sessions

end RedundancyState

/-! ## The service in a tick -/

/-- What a tick makes of a group's state, and the switches. -/
def evaluated (p : RedundancyPolicy) (old : Option RedundancyState) (now : Time) (id : String)
    (t : GroupTick) : Option RedundancyState × List Switch :=
  if !p.observing && old.isNone && p.revision == 1 then (old, [])
  else
    let state := (old.getD newRedundancyState).opened now
    if !p.observing then (some { state with health := ∅, identity := ∅ }, [])
    else
      let state := state.observeMembers now t.members
      let (state, switches) := if p.enabled then state.automaticRoutes now id p t else (state, [])
      (some state, switches)

namespace RedundancyService

variable {s : RedundancyService} {now : Time}

/-- Nobody else commits between the begin and the commit of an evaluation. -/
theorem commit_begin (id : String) (state : RedundancyState) :
    ((s.begin id).1.commit id (s.begin id).2.2 state).states = s.states.insert id state ∧
    ((s.begin id).1.commit id (s.begin id).2.2 state).policies = s.policies := by
  unfold begin
  dsimp only
  split
  · have hversion : (s.advance id).version id = s.sequence + 1 := by
      simp [version, advance]
    unfold commit
    rw [hversion]
    simp [advance]
  · rename_i hversion
    unfold commit
    simp [hversion, advance]

theorem begin_state (id : String) : (s.begin id).2.1 = s.state id := by
  unfold begin
  dsimp only
  split <;> rfl

theorem evaluate_spec (id : String) (t : GroupTick) :
    (∀ id', (s.evaluate now id t).1.states.lookup id' =
      if id' = id then (evaluated (s.policy id) (s.states.lookup id) now id t).1
      else s.states.lookup id') ∧
    (s.evaluate now id t).1.policies = s.policies ∧
    (s.evaluate now id t).2 = (evaluated (s.policy id) (s.states.lookup id) now id t).2 := by
  have hstate : decide (id ∉ s.states) = (s.states.lookup id).isNone := by
    cases hid : s.states.lookup id with
    | none => simp [AList.lookup_eq_none.mp hid]
    | some state => simp [show id ∈ s.states from Map.mem_iff.mpr ⟨state, hid⟩]
  have hcommit : ∀ state, ((s.begin id).1.commit id (s.begin id).2.2 state).states =
      s.states.insert id state ∧
      ((s.begin id).1.commit id (s.begin id).2.2 state).policies = s.policies := commit_begin id
  have hold : (s.begin id).2.1 = (s.states.lookup id).getD newRedundancyState := begin_state id
  unfold evaluate evaluated
  generalize s.begin id = begun at hcommit hold
  obtain ⟨s₁, state, version⟩ := begun
  dsimp only at hcommit hold ⊢
  subst hold
  simp only [hstate]
  split
  · refine ⟨fun id' => ?_, rfl, rfl⟩
    split
    · rename_i heq
      rw [heq]
    · rfl
  split
  · rw [(hcommit _).1, (hcommit _).2]
    exact ⟨fun _ => Map.lookup_insert_eq, rfl, rfl⟩
  · rw [(hcommit _).1, (hcommit _).2]
    exact ⟨fun _ => Map.lookup_insert_eq, rfl, rfl⟩

end RedundancyService

end RcdServer.Redundancy
