import Mathlib.Algebra.Order.Ring.Int
import RcdServer.Redundancy.Stamps

/-!
# Automatic switches are qualified

Along any run of ticks, policies and groups, an automatic switch goes from a source that has been
unhealthy long enough to the first source of the priority that has been healthy long enough, both
since the last policy, while no command is pending and after the cooldown of the previous switch.
-/
namespace RcdServer.Redundancy

open Lib Lib.Run Lib.Spans

/-! ## The ticks since the last policy -/

/-- The ticks that count for a group, the latest first. -/
def record (group : String) (log : List Tick) : Action → List Tick
  | .tick t => t :: log
  | .replacePolicy p => if p.groupID = group then [] else log
  | .createGroup id | .deleteGroup id => if id = group then [] else log
  | .restoreAlarm _ => log

def ticksSince (group : String) (as : List Action) : List Tick := as.foldl (record group) []

/-- The source was observed so, under one identity, at every tick of a span of that many seconds. -/
def Lasting (group source : String) (healthy : Bool) (seconds : Int) (now : Time)
    (log : List Tick) : Prop :=
  ∃ identity first, Unbroken (observed group source) (healthy, identity) first log ∧
    seconds * second ≤ now - first.now

theorem lasting_iff_stable {group source : String} {s : RedundancyState} {log : List Tick}
    (hs : Stamped group s log) (hsorted : log.Pairwise fun new old => old.now ≤ new.now)
    {healthy : Bool} {seconds : Int} {now : Time} :
    Lasting group source healthy seconds now log ↔
      (s.health.lookup source).any (RedundancyState.stable now healthy seconds) = true := by
  rw [Option.any_eq_true]
  constructor
  · intro ⟨identity, first, hspan, hlong⟩
    obtain ⟨start, hstart, hle⟩ := runStart_le Tick.now hsorted hspan
    cases hh : s.health.lookup source with
    | none =>
      rw [hs.none source hh] at hstart
      cases hstart
    | some h =>
      refine ⟨h, rfl, ?_⟩
      obtain ⟨identity', start', -, hstart', hsince⟩ := hs.stamp source h hh
      have hsame : (h.healthy, identity') = (healthy, identity) := by
        by_contra hne
        rw [runStart_other hstart hne] at hstart'
        cases hstart'
      rw [hsame] at hstart'
      obtain rfl : start = start' := Option.some.inj (hstart.symm.trans hstart')
      have hhealthy : h.healthy = healthy := (Prod.mk.inj hsame).1
      simp only [RedundancyState.stable, hhealthy, beq_self_eq_true, Bool.true_and,
        decide_eq_true_eq, hsince]
      exact hlong.trans (Int.sub_le_sub_left hle now)
  · intro ⟨h, hh, hstable⟩
    simp only [RedundancyState.stable, Bool.and_eq_true, beq_iff_eq, decide_eq_true_eq] at hstable
    obtain ⟨identity, start, -, hstart, hsince⟩ := hs.stamp source h hh
    rw [hstable.1] at hstart
    exact ⟨identity, start, unbroken_runStart hstart, hsince ▸ hstable.2⟩

/-! ## One group -/

section Group

variable {p : RedundancyPolicy} {old : Option RedundancyState} {now : Time} {id : String}
  {t : GroupTick}

theorem Stamped.congr {group : String} {s s' : RedundancyState} {log : List Tick}
    (hs : Stamped group s log) (hhealth : s'.health = s.health)
    (hidentity : s'.identity = s.identity) : Stamped group s' log := by
  refine ⟨fun source h hh => ?_, fun source hnone => ?_⟩
  · rw [hhealth] at hh
    rw [hidentity]
    exact hs.stamp source h hh
  · rw [hhealth] at hnone
    exact hs.none source hnone

theorem observeMembers_last (s : RedundancyState) (members : Map String Member) :
    (s.observeMembers now members).view.lastSwitchAt = s.view.lastSwitchAt := by
  have hall : ∀ (es : List (Sigma fun _ : String => Member)) (s : RedundancyState),
      (es.foldl (fun s m => s.observe now m.1 m.2) s).view.lastSwitchAt = s.view.lastSwitchAt := by
    intro es
    induction es with
    | nil => exact fun _ => rfl
    | cons e es ih => exact fun s => ih (s.observe now e.1 e.2)
  exact hall members.entries s

/-- A tick keeps the stamps of a group that it observes. -/
theorem evaluated_stamped {log : List Tick} {tick : Tick} (hobserving : p.observing = true)
    (hs : Stamped id (old.getD newRedundancyState) log) (ht : tick.groups.lookup id = some t) :
    ∃ s, (evaluated p old tick.now id t).1 = some s ∧ Stamped id s (tick :: log) := by
  unfold evaluated
  simp only [hobserving, Bool.not_true, Bool.false_and, Bool.false_eq_true, if_false]
  have hopened : Stamped id ((old.getD newRedundancyState).opened tick.now) log := hs.congr rfl rfl
  have hobserved := stamped_tick hopened ht
  refine ⟨_, rfl, ?_⟩
  split
  · have hswitched := RedundancyState.automaticRoutes_switched
      (((old.getD newRedundancyState).opened tick.now).observeMembers tick.now t.members)
      tick.now id p t
    exact hobserved.congr hswitched.health hswitched.identity
  · exact hobserved

/-- The state that a group's decision is made in. -/
def decided (old : Option RedundancyState) (now : Time) (t : GroupTick) : RedundancyState :=
  ((old.getD newRedundancyState).opened now).observeMembers now t.members

theorem evaluated_switches {w : Switch} (hw : w ∈ (evaluated p old now id t).2) :
    p.enabled = true ∧ ∃ plan, plan = ((decided old now t).automaticSelection p t.pending now).2 ∧
      w.group = id ∧ w.time = now ∧ w.target = plan.target ∧ plan.shouldSwitch w.source = true := by
  unfold evaluated at hw
  split at hw
  · cases hw
  split at hw
  · cases hw
  dsimp only at hw
  split at hw
  · rename_i henabled
    exact ⟨henabled, _, rfl,
      (RedundancyState.automaticRoutes_switched _ now id p t).switches w hw⟩
  · cases hw

theorem evaluated_last :
    ((evaluated p old now id t).1.getD newRedundancyState).view.lastSwitchAt =
      if (evaluated p old now id t).2.isEmpty then
        (old.getD newRedundancyState).view.lastSwitchAt
      else some now := by
  unfold evaluated
  split
  · rfl
  split
  · rfl
  have hlast : (((old.getD newRedundancyState).opened now).observeMembers now
      t.members).view.lastSwitchAt = (old.getD newRedundancyState).view.lastSwitchAt :=
    observeMembers_last _ _
  dsimp only
  split
  · have hswitched := RedundancyState.automaticRoutes_switched
      (((old.getD newRedundancyState).opened now).observeMembers now t.members) now id p t
    rw [Option.getD_some, hswitched.last, hlast]
  · exact hlast

end Group

/-! ## All groups -/

section Groups

variable {now : Time} {es : List (Sigma fun _ : String => GroupTick)} {s : Sys}

/-- The evaluations of other groups do not matter to a group. -/
theorem evaluateGroups_spec (hnodup : es.NodupKeys) :
    (es.foldl (Sys.evaluateGroup now) s).groups = s.groups ∧
    (es.foldl (Sys.evaluateGroup now) s).clock = s.clock ∧
    (es.foldl (Sys.evaluateGroup now) s).service.policies = s.service.policies ∧
    (∀ id, (es.foldl (Sys.evaluateGroup now) s).service.states.lookup id =
      match es.dlookup id with
      | some e => (evaluated (s.service.policy id) (s.service.states.lookup id) now id e).1
      | none => s.service.states.lookup id) ∧
    ∃ news, (es.foldl (Sys.evaluateGroup now) s).switches = news ++ s.switches ∧
      ∀ w ∈ news, ∃ e, es.dlookup w.group = some e ∧
        w ∈ (evaluated (s.service.policy w.group) (s.service.states.lookup w.group) now w.group
          e).2 := by
  induction es generalizing s with
  | nil => exact ⟨rfl, rfl, rfl, fun _ => rfl, [], rfl, by simp⟩
  | cons e es ih =>
    obtain ⟨id₀, t⟩ := e
    obtain ⟨hnew, hrest⟩ := List.nodupKeys_cons.mp hnodup
    obtain ⟨hstates, hpolicies, hswitches⟩ :=
      @RedundancyService.evaluate_spec s.service now id₀ t
    obtain ⟨hgroups, hclock, hpolicies', hstates', news, hnews, hmade⟩ :=
      @ih (Sys.evaluateGroup now s ⟨id₀, t⟩) hrest
    have hservice : (Sys.evaluateGroup now s ⟨id₀, t⟩).service = (s.service.evaluate now id₀ t).1 :=
      rfl
    have hpolicy : ∀ id, (Sys.evaluateGroup now s ⟨id₀, t⟩).service.policy id =
        s.service.policy id := by
      intro id
      rw [hservice, RedundancyService.policy, hpolicies, RedundancyService.policy]
    rw [List.foldl_cons]
    refine ⟨hgroups, hclock, hpolicies'.trans hpolicies, ?_, ?_⟩
    · intro id
      rw [hstates' id, hpolicy, hservice, hstates]
      by_cases hid : id = id₀
      · subst hid
        rw [List.dlookup_eq_none.mpr hnew, List.dlookup_cons_eq, if_pos rfl]
      · rw [List.dlookup_cons_ne _ _ hid, if_neg hid]
    · refine ⟨news ++ (s.service.evaluate now id₀ t).2, ?_, ?_⟩
      · rw [hnews, List.append_assoc]
        rfl
      · intro w hw
        rcases List.mem_append.mp hw with hw | hw
        · obtain ⟨e, he, hw⟩ := hmade w hw
          have hid : w.group ≠ id₀ := by
            intro heq
            rw [heq, List.dlookup_eq_none.mpr hnew] at he
            cases he
          refine ⟨e, by rw [List.dlookup_cons_ne _ _ hid]; exact he, ?_⟩
          rw [hpolicy, hservice, hstates, if_neg hid] at hw
          exact hw
        · rw [hswitches] at hw
          obtain ⟨-, -, -, hgroup, -⟩ := evaluated_switches hw
          rw [hgroup]
          exact ⟨t, List.dlookup_cons_eq _ _ _, hw⟩

/-- The last switch of a group is the latest in the list. -/
def LastKnown (group : String) (s : Sys) : Prop :=
  (s.service.state group).view.lastSwitchAt =
    (s.switches.find? (·.group == group)).map (·.time)

theorem evaluateGroup_last {group : String} (h : LastKnown group s)
    (e : Sigma fun _ : String => GroupTick) : LastKnown group (Sys.evaluateGroup now s e) := by
  obtain ⟨id, t⟩ := e
  obtain ⟨hstates, -, hswitches⟩ := @RedundancyService.evaluate_spec s.service now id t
  have hstate : (Sys.evaluateGroup now s ⟨id, t⟩).service.state group = ((if group = id then
      (evaluated (s.service.policy id) (s.service.states.lookup id) now id t).1
      else s.service.states.lookup group).getD newRedundancyState) := by
    rw [← hstates group]
    rfl
  have hlist : (Sys.evaluateGroup now s ⟨id, t⟩).switches =
      (evaluated (s.service.policy id) (s.service.states.lookup id) now id t).2 ++ s.switches := by
    rw [← hswitches]
    rfl
  unfold LastKnown
  rw [hstate, hlist, List.find?_append]
  by_cases hid : group = id
  · subst hid
    rw [if_pos rfl, evaluated_last]
    generalize hmade : (evaluated (s.service.policy group) (s.service.states.lookup group) now group
      t).2 = made
    cases made with
    | nil => exact h
    | cons w made =>
      obtain ⟨-, -, -, hgroup, htime, -⟩ := evaluated_switches (w := w)
        (by rw [hmade]; exact List.mem_cons_self)
      simp [hgroup, htime]
  · have hnone : (evaluated (s.service.policy id) (s.service.states.lookup id) now id t).2.find?
        (·.group == group) = none := by
      rw [List.find?_eq_none]
      intro w hw
      obtain ⟨-, -, -, hgroup, -⟩ := evaluated_switches hw
      rw [hgroup]
      simpa using fun heq => hid heq.symm
    rw [if_neg hid, hnone]
    exact h

theorem evaluateGroups_last {group : String} (h : LastKnown group s) :
    LastKnown group (es.foldl (Sys.evaluateGroup now) s) := by
  induction es generalizing s with
  | nil => exact h
  | cons e es ih => exact ih (evaluateGroup_last h e)

end Groups

/-! ## Dropped states -/

/-- A state without stamps and switches. -/
def Blank (s : RedundancyState) : Prop :=
  (∀ source, s.health.lookup source = none) ∧ s.view.lastSwitchAt = none

theorem blank_new : Blank newRedundancyState := ⟨fun _ => rfl, rfl⟩

section Drops

variable {s : RedundancyService} {id group : String} {saved : Except String Unit}

theorem begin_frame (s : RedundancyService) (id : String) :
    (s.begin id).1.states = s.states ∧ (s.begin id).1.policies = s.policies := by
  unfold RedundancyService.begin
  dsimp only
  split <;> exact ⟨rfl, rfl⟩

theorem dropState_cases (s : RedundancyService) (saved : Except String Unit) (id : String) :
    ((s.dropState saved id).states = s.states.erase id ∧
      (s.dropState saved id).policies = s.policies.erase id) ∨
    ∃ error, (s.dropState saved id).states = s.states.insert id ((s.state id).fail error) ∧
      (s.dropState saved id).policies = s.policies := by
  obtain ⟨hstates, hpolicies⟩ := begin_frame s id
  cases saved with
  | ok _ =>
    left
    show ((s.begin id).1.remove id).states = _ ∧ ((s.begin id).1.remove id).policies = _
    rw [RedundancyService.remove, hstates, hpolicies]
    exact ⟨rfl, rfl⟩
  | error e =>
    refine .inr ⟨"告警保存失败，将重试：" ++ e, ?_⟩
    have hcommit := @RedundancyService.commit_begin s id
      ((s.begin id).2.1.fail ("告警保存失败，将重试：" ++ e))
    rw [← RedundancyService.begin_state]
    exact hcommit

theorem dropState_other (hne : group ≠ id) :
    (s.dropState saved id).state group = s.state group ∧
    (s.dropState saved id).policy group = s.policy group := by
  unfold RedundancyService.state RedundancyService.policy
  rcases dropState_cases s saved id with ⟨hstates, hpolicies⟩ | ⟨error, hstates, hpolicies⟩
  · rw [hstates, hpolicies, AList.lookup_erase_ne hne, AList.lookup_erase_ne hne]
    exact ⟨rfl, rfl⟩
  · rw [hstates, hpolicies, AList.lookup_insert_ne hne]
    exact ⟨rfl, rfl⟩

theorem dropState_blank (h : Blank (s.state group)) : Blank ((s.dropState saved id).state group) := by
  by_cases hid : group = id
  · subst hid
    rcases dropState_cases s saved group with ⟨hstates, -⟩ | ⟨error, hstates, -⟩
    · rw [RedundancyService.state, hstates, AList.lookup_erase]
      exact blank_new
    · rw [RedundancyService.state, hstates, AList.lookup_insert]
      exact h
  · rw [(dropState_other hid).1]
    exact h

theorem dropStates_other {saved : String → Except String Unit} {ids : List String}
    (hid : group ∉ ids) :
    (ids.foldl (fun s id => s.dropState (saved id) id) s).state group = s.state group ∧
    (ids.foldl (fun s id => s.dropState (saved id) id) s).policy group = s.policy group := by
  induction ids generalizing s with
  | nil => exact ⟨rfl, rfl⟩
  | cons id ids ih =>
    obtain ⟨hne, hrest⟩ := not_or.mp (List.mem_cons.not.mp hid)
    obtain ⟨hstate, hpolicy⟩ := @ih (s.dropState (saved id) id) hrest
    obtain ⟨hstate', hpolicy'⟩ := @dropState_other s id group (saved id) hne
    exact ⟨hstate.trans hstate', hpolicy.trans hpolicy'⟩

theorem dropStates_blank {saved : String → Except String Unit} {ids : List String}
    (h : Blank (s.state group)) :
    Blank ((ids.foldl (fun s id => s.dropState (saved id) id) s).state group) := by
  induction ids generalizing s with
  | nil => exact h
  | cons id ids ih => exact ih (dropState_blank h)

end Drops

/-! ## The invariant -/

structure Inv (group : String) (log : List Tick) (s : Sys) : Prop where
  absent : group ∉ s.groups → Blank (s.service.state group)
  stamped : group ∈ s.groups → (s.service.policy group).observing = true →
    Stamped group (s.service.state group) log
  sorted : log.Pairwise fun new old => old.now ≤ new.now
  clock : ∀ t ∈ log, ∃ c, s.clock = some c ∧ t.now ≤ c
  last : LastKnown group s
  known : ∀ w ∈ s.switches, w.group ∈ s.groups

theorem inv_initial (group : String) (policies : Map String RedundancyPolicy)
    (groups : List String) : Inv group [] (Sys.initial policies groups) := by
  have hnew : (Sys.initial policies groups).service.state group = newRedundancyState := rfl
  refine ⟨fun _ => hnew ▸ blank_new, fun _ _ => hnew ▸ stamped_nil blank_new.1, .nil, by simp, ?_,
    by simp [Sys.initial]⟩
  rw [LastKnown, hnew]
  rfl

section Steps

variable {s s' : Sys} {group : String} {log : List Tick}

/-- A tick evaluates every group of the configuration, in the state the last one left it in. -/
structure Ticked (s : Sys) (t : Tick) (s' : Sys) : Prop where
  clock : ∀ c, s.clock = some c → c ≤ t.now
  groups : s'.groups = s.groups ∧ s'.clock = some t.now
  members : ∀ id, id ∈ s.groups ↔ ∃ e, t.groups.lookup id = some e
  present : ∀ id e, t.groups.lookup id = some e →
    s'.service.policy id = s.service.policy id ∧
    s'.service.state id = (evaluated (s.service.policy id) (s.service.states.lookup id) t.now id
      e).1.getD newRedundancyState
  absent : ∀ id, id ∉ s.groups → Blank (s.service.state id) → Blank (s'.service.state id)
  last : ∀ id, id ∈ s.groups → LastKnown id s → LastKnown id s'
  news : ∃ news, s'.switches = news ++ s.switches ∧ ∀ w ∈ news, ∃ e,
    t.groups.lookup w.group = some e ∧ w ∈ (evaluated (s.service.policy w.group)
      (s.service.states.lookup w.group) t.now w.group e).2

theorem tick_eq_some {t : Tick} (h : s.tick t = some s') : Ticked s t s' := by
  unfold Sys.tick at h
  split at h
  · cases h
  rename_i henabled
  simp only [not_or, not_not] at henabled
  obtain ⟨hclock, hsub, hsup⟩ := henabled
  cases h
  have hspec := @evaluateGroups_spec t.now t.groups.entries { s with clock := some t.now }
    t.groups.nodupKeys
  have hlast : ∀ id, LastKnown id s → LastKnown id (t.groups.entries.foldl
      (Sys.evaluateGroup t.now) { s with clock := some t.now }) :=
    fun id hid => evaluateGroups_last hid
  generalize t.groups.entries.foldl (Sys.evaluateGroup t.now) { s with clock := some t.now } = s₁
    at hspec hlast ⊢
  obtain ⟨hgroups, hclock₁, hpolicies, hstates, hnews⟩ := hspec
  have hmembers : ∀ id, id ∈ s.groups ↔ ∃ e, t.groups.lookup id = some e := by
    intro id
    rw [← Map.mem_iff]
    exact ⟨fun hid => hsup hid, fun hid => hsub hid⟩
  -- The states of the groups are not dropped.
  have hkept : ∀ id ∈ s.groups, id ∉ s₁.service.states.keys.filter (· ∉ s₁.groups) := by
    intro id hid hmem
    have hother := (List.mem_filter.mp hmem).2
    simp only [decide_eq_true_eq] at hother
    exact hother (hgroups ▸ hid)
  refine ⟨?_, ⟨hgroups, hclock₁⟩, hmembers, ?_, ?_, ?_, hnews⟩
  · intro c hc
    rw [hc] at hclock
    simpa using hclock
  · intro id e he
    obtain ⟨hstate, hpolicy⟩ := @dropStates_other s₁.service id t.saved _
      (hkept id ((hmembers id).mpr ⟨e, he⟩))
    rw [hstate, hpolicy, RedundancyService.policy, hpolicies, RedundancyService.state, hstates,
      show t.groups.entries.dlookup id = some e from he]
    exact ⟨rfl, rfl⟩
  · intro id hid hblank
    refine dropStates_blank ?_
    have hnone : t.groups.entries.dlookup id = none := by
      cases he : t.groups.entries.dlookup id with
      | none => rfl
      | some e => exact absurd ((hmembers id).mpr ⟨e, he⟩) hid
    rw [RedundancyService.state, hstates, hnone]
    exact hblank
  · intro id hid hold
    obtain ⟨hstate, -⟩ := @dropStates_other s₁.service id t.saved _ (hkept id hid)
    unfold LastKnown
    rw [hstate]
    exact hlast id hold

theorem tick_inv (hinv : Inv group log s) {t : Tick} (h : s.tick t = some s') :
    Inv group (t :: log) s' := by
  have ht := tick_eq_some h
  obtain ⟨news, hnews, hmade⟩ := ht.news
  have holder : ∀ old ∈ log, old.now ≤ t.now := by
    intro old hold
    obtain ⟨c, hc, hle⟩ := hinv.clock old hold
    exact Int.le_trans hle (ht.clock c hc)
  have hknown : ∀ w ∈ s'.switches, w.group ∈ s.groups := by
    intro w hw
    rw [hnews] at hw
    rcases List.mem_append.mp hw with hw | hw
    · obtain ⟨e, he, -⟩ := hmade w hw
      exact (ht.members w.group).mpr ⟨e, he⟩
    · exact hinv.known w hw
  refine ⟨?_, ?_, List.pairwise_cons.mpr ⟨holder, hinv.sorted⟩, ?_, ?_, ?_⟩
  · intro habsent
    rw [ht.groups.1] at habsent
    exact ht.absent group habsent (hinv.absent habsent)
  · intro hpresent hobserving
    rw [ht.groups.1] at hpresent
    obtain ⟨e, he⟩ := (ht.members group).mp hpresent
    obtain ⟨hpolicy, hstate⟩ := ht.present group e he
    rw [hpolicy] at hobserving
    obtain ⟨st, hst, hstamped⟩ := evaluated_stamped hobserving
      (hinv.stamped hpresent hobserving) he
    rw [hstate, hst]
    exact hstamped
  · intro old hold
    refine ⟨t.now, ht.groups.2, ?_⟩
    rcases List.mem_cons.mp hold with rfl | hold
    · exact Int.le_refl _
    · exact holder old hold
  · by_cases hpresent : group ∈ s.groups
    · exact ht.last group hpresent hinv.last
    · have hblank := ht.absent group hpresent (hinv.absent hpresent)
      have hnone : s'.switches.find? (·.group == group) = none := by
        rw [List.find?_eq_none]
        intro w hw heq
        rw [beq_iff_eq] at heq
        exact hpresent (heq ▸ hknown w hw)
      rw [LastKnown, hblank.2, hnone]
      rfl
  · rw [ht.groups.1]
    exact hknown

theorem createGroup_inv (hinv : Inv group log s) {id : String} (hnew : id ∉ s.groups) :
    Inv group (record group log (.createGroup id)) { s with groups := id :: s.groups } := by
  have hknown : ∀ w ∈ s.switches, w.group ∈ id :: s.groups := fun w hw =>
    List.mem_cons_of_mem id (hinv.known w hw)
  by_cases hid : id = group
  · subst hid
    have hblank := hinv.absent hnew
    simp only [record, if_true]
    refine ⟨fun _ => hblank, fun _ _ => stamped_nil hblank.1, .nil, by simp, hinv.last, hknown⟩
  · simp only [record, if_neg hid]
    refine ⟨fun habsent => hinv.absent fun hmem => habsent (List.mem_cons_of_mem id hmem),
      fun hpresent => hinv.stamped ?_, hinv.sorted, hinv.clock, hinv.last, hknown⟩
    exact (List.mem_cons.mp hpresent).resolve_left fun heq => hid heq.symm

theorem remove_other {service : RedundancyService} {id : String} (hne : group ≠ id) :
    (service.remove id).state group = service.state group ∧
    (service.remove id).policy group = service.policy group := by
  simp only [RedundancyService.state, RedundancyService.policy, RedundancyService.remove,
    AList.lookup_erase_ne hne]
  exact ⟨trivial, trivial⟩

theorem deleteGroup_inv (hinv : Inv group log s) (id : String) :
    Inv group (record group log (.deleteGroup id)) { s with
      service := s.service.remove id
      groups := s.groups.filter (· ≠ id)
      switches := s.switches.filter (·.group ≠ id) } := by
  have hknown : ∀ w ∈ s.switches.filter (·.group ≠ id), w.group ∈ s.groups.filter (· ≠ id) := by
    intro w hw
    obtain ⟨hw, hother⟩ := List.mem_filter.mp hw
    exact List.mem_filter.mpr ⟨hinv.known w hw, hother⟩
  by_cases hid : id = group
  · subst hid
    have hnew : (s.service.remove id).state id = newRedundancyState := by
      simp [RedundancyService.state, RedundancyService.remove]
    have hnone : (s.switches.filter (·.group ≠ id)).find? (·.group == id) = none := by
      rw [List.find?_eq_none]
      intro w hw heq
      have hother := (List.mem_filter.mp hw).2
      simp only [ne_eq, decide_not, Bool.not_eq_true', decide_eq_false_iff_not] at hother
      exact hother (beq_iff_eq.mp heq)
    simp only [record, if_true]
    refine ⟨fun _ => hnew ▸ blank_new, fun _ _ => hnew ▸ stamped_nil blank_new.1, .nil, by simp, ?_,
      hknown⟩
    show ((s.service.remove id).state id).view.lastSwitchAt = _
    rw [hnew, hnone]
    rfl
  · have hne : group ≠ id := fun heq => hid heq.symm
    obtain ⟨hstate, hpolicy⟩ := @remove_other group s.service id hne
    have hfind : (s.switches.filter (·.group ≠ id)).find? (·.group == group) =
        s.switches.find? (·.group == group) := by
      rw [List.find?_filter]
      congr 1
      funext w
      by_cases hw : w.group = group
      · simp [hw, hne]
      · simp [hw]
    have hmem : group ∈ s.groups.filter (· ≠ id) ↔ group ∈ s.groups := by
      simp [List.mem_filter, hne]
    simp only [record, if_neg hid]
    refine ⟨?_, ?_, hinv.sorted, hinv.clock, ?_, hknown⟩
    · intro habsent
      show Blank ((s.service.remove id).state group)
      rw [hstate]
      exact hinv.absent fun hpresent => habsent (hmem.mpr hpresent)
    · intro hpresent hobserving
      have hold : (s.service.policy group).observing = true := hpolicy ▸ hobserving
      show Stamped group ((s.service.remove id).state group) log
      rw [hstate]
      exact hinv.stamped (hmem.mp hpresent) hold
    · show ((s.service.remove id).state group).view.lastSwitchAt = _
      rw [hstate, hfind]
      exact hinv.last

/-- The service is told of a group's new state, and perhaps of its policy. -/
theorem Inv.service (hinv : Inv group log s) {service : RedundancyService}
    (hpolicy : service.policy group = s.service.policy group)
    (hstate : service.state group = s.service.state group) :
    Inv group log { s with service := service } := by
  refine ⟨fun habsent => ?_, fun hpresent hobserving => ?_, hinv.sorted, hinv.clock, ?_, hinv.known⟩
  · rw [hstate]
    exact hinv.absent habsent
  · rw [hstate]
    exact hinv.stamped hpresent (hpolicy ▸ hobserving)
  · rw [LastKnown, hstate]
    exact hinv.last

theorem replacePolicy_inv (hinv : Inv group log s) {p : RedundancyPolicy}
    (hgroup : p.groupID ∈ s.groups) :
    Inv group (record group log (.replacePolicy p)) { s with
      service := s.service.replacePolicy p } := by
  by_cases hid : p.groupID = group
  · subst hid
    have hstate : (s.service.replacePolicy p).state p.groupID =
        { s.service.state p.groupID with health := ∅, identity := ∅ } := by
      simp [RedundancyService.replacePolicy, RedundancyService.state, RedundancyService.advance]
    simp only [record, if_true]
    refine ⟨fun habsent => absurd hgroup habsent, fun _ _ => ?_, .nil, by simp, ?_, hinv.known⟩
    · rw [hstate]
      exact stamped_nil fun _ => rfl
    · rw [LastKnown, hstate]
      exact hinv.last
  · have hne : group ≠ p.groupID := fun heq => hid heq.symm
    simp only [record, if_neg hid]
    refine hinv.service ?_ ?_
    · simp only [RedundancyService.replacePolicy, RedundancyService.policy,
        RedundancyService.advance, AList.lookup_insert_ne hne]
    · simp only [RedundancyService.replacePolicy, RedundancyService.state,
        RedundancyService.advance, AList.lookup_insert_ne hne]

theorem restoreAlarm_inv (hinv : Inv group log s) (id : String) :
    Inv group log { s with service := s.service.restoreAlarm id } := by
  refine hinv.service rfl ?_
  simp only [RedundancyService.restoreAlarm, RedundancyService.state, RedundancyService.advance,
    Map.lookup_insert_eq]
  split
  · rename_i heq
    rw [heq]
    rfl
  · rfl

theorem step_cases {a : Action} (h : step s a = some s') :
    (∃ id, a = .createGroup id ∧ id ∉ s.groups ∧ s' = { s with groups := id :: s.groups }) ∨
    (∃ id, a = .deleteGroup id ∧ s' = { s with
      service := s.service.remove id
      groups := s.groups.filter (· ≠ id)
      switches := s.switches.filter (·.group ≠ id) }) ∨
    (∃ p, a = .replacePolicy p ∧ p.groupID ∈ s.groups ∧
      s' = { s with service := s.service.replacePolicy p }) ∨
    (∃ id, a = .restoreAlarm id ∧ s' = { s with service := s.service.restoreAlarm id }) ∨
    ∃ t, a = .tick t := by
  cases a with
  | createGroup id =>
    simp only [step] at h
    split at h
    · cases h
    · exact .inl ⟨id, rfl, ‹_›, (Option.some.inj h).symm⟩
  | deleteGroup id =>
    simp only [step] at h
    split at h
    · cases h
    · exact .inr (.inl ⟨id, rfl, (Option.some.inj h).symm⟩)
  | replacePolicy p =>
    simp only [step] at h
    split at h
    · exact .inr (.inr (.inl ⟨p, rfl, ‹_›, (Option.some.inj h).symm⟩))
    · cases h
  | restoreAlarm id => exact .inr (.inr (.inr (.inl ⟨id, rfl, (Option.some.inj h).symm⟩)))
  | tick t => exact .inr (.inr (.inr (.inr ⟨t, rfl⟩)))

theorem step_inv (hinv : Inv group log s) {a : Action} (h : step s a = some s') :
    Inv group (record group log a) s' := by
  obtain ⟨id, rfl, hnew, rfl⟩ | ⟨id, rfl, rfl⟩ | ⟨p, rfl, hgroup, rfl⟩ | ⟨id, rfl, rfl⟩ | ⟨t, rfl⟩ :=
    step_cases h
  · exact createGroup_inv hinv hnew
  · exact deleteGroup_inv hinv id
  · exact replacePolicy_inv hinv hgroup
  · exact restoreAlarm_inv hinv id
  · exact tick_inv hinv h

theorem exec_inv {as : List Action} (hinv : Inv group log s) (h : exec step s as = some s') :
    Inv group (as.foldl (record group) log) s' := by
  induction as generalizing s log with
  | nil =>
    cases h
    exact hinv
  | cons a as ih =>
    obtain ⟨mid, hmid, h⟩ := exec_cons.mp h
    exact ih (step_inv hinv hmid) h

end Steps

/-! ## Every switch -/

/-- What an automatic switch of a tick rests on, `log` being the ticks since the last policy. -/
structure Qualified (s : Sys) (log : List Tick) (t : Tick) (w : Switch) : Prop where
  time : w.time = t.now
  idle : ∃ e, t.groups.lookup w.group = some e ∧ e.pending = false
  target : ∃ before after,
    (s.service.policy w.group).priority = before ++ w.target :: after ∧
    Lasting w.group w.target true (s.service.policy w.group).healthySeconds t.now log ∧
    ∀ id ∈ before,
      ¬ Lasting w.group id true (s.service.policy w.group).healthySeconds t.now log
  source : Lasting w.group w.source false (s.service.policy w.group).failureSeconds t.now log
  cooldown : ∀ last, s.switches.find? (·.group == w.group) = some last →
    (s.service.policy w.group).cooldownSeconds * second ≤ t.now - last.time

theorem qualified_of_evaluated {s : Sys} {log : List Tick} {t : Tick} {w : Switch} {e : GroupTick}
    (hinv : Inv w.group log s) (hsorted : (t :: log).Pairwise fun new old => old.now ≤ new.now)
    (hgroup : w.group ∈ s.groups) (he : t.groups.lookup w.group = some e)
    (hw : w ∈ (evaluated (s.service.policy w.group) (s.service.states.lookup w.group) t.now w.group
      e).2) : Qualified s (t :: log) t w := by
  obtain ⟨henabled, plan, hplan, -, htime, htarget, hswitch⟩ := evaluated_switches hw
  have hobserving : (s.service.policy w.group).observing = true := by
    simp [RedundancyPolicy.observing, henabled]
  have hopened : Stamped w.group ((s.service.state w.group).opened t.now) log :=
    (hinv.stamped hgroup hobserving).congr rfl rfl
  have hstamped : Stamped w.group (decided (s.service.states.lookup w.group) t.now e) (t :: log) :=
    stamped_tick hopened he
  have hlast : (decided (s.service.states.lookup w.group) t.now e).view.lastSwitchAt =
      (s.switches.find? (·.group == w.group)).map (·.time) :=
    (observeMembers_last _ _).trans hinv.last
  simp only [Plan.shouldSwitch, Bool.and_eq_true, bne_iff_ne, List.contains_iff_mem] at hswitch
  obtain ⟨⟨⟨-, hnamed⟩, -⟩, hfailed⟩ := hswitch
  subst hplan
  obtain ⟨hidle, hcooldown, hfirst, -, hstable⟩ :=
    RedundancyState.automaticSelection_target hnamed
  rw [← htarget] at hfirst
  obtain ⟨hhealthy, before, after, hpriority, hbefore⟩ := List.find?_eq_some_iff_append.mp hfirst
  refine ⟨htime, ⟨e, he, hidle⟩, ⟨before, after, hpriority, ?_, ?_⟩, ?_, ?_⟩
  · exact (lasting_iff_stable hstamped hsorted).mpr hhealthy
  · intro id hid hlasting
    have hnot := hbefore id hid
    rw [(lasting_iff_stable hstamped hsorted).mp hlasting] at hnot
    cases hnot
  · obtain ⟨h, hh, hlong⟩ := hstable w.source hfailed
    exact (lasting_iff_stable hstamped hsorted).mpr (by rw [hh]; exact hlong)
  · intro last hfound
    refine hcooldown last.time ?_
    rw [hlast, hfound]
    rfl

theorem automatic_switch_qualified {policies : Map String RedundancyPolicy} {groups : List String}
    {as : List Action} {s : Sys} (h : exec step (Sys.initial policies groups) as = some s) :
    (∀ t s', step s (.tick t) = some s' → ∃ news, s'.switches = news ++ s.switches ∧
      ∀ w ∈ news, Qualified s (t :: ticksSince w.group as) t w) ∧
    ∀ a s', step s a = some s' → (∀ t, a ≠ .tick t) → s'.switches.Sublist s.switches := by
  have hinv : ∀ group, Inv group (ticksSince group as) s := fun group =>
    exec_inv (inv_initial group policies groups) h
  constructor
  · intro t s' hstep
    have ht := tick_eq_some hstep
    obtain ⟨news, hnews, hmade⟩ := ht.news
    refine ⟨news, hnews, fun w hw => ?_⟩
    obtain ⟨e, he, hw⟩ := hmade w hw
    have hsorted := (step_inv (hinv w.group) hstep).sorted
    exact qualified_of_evaluated (hinv w.group) hsorted ((ht.members w.group).mpr ⟨e, he⟩) he hw
  · intro a s' hstep hother
    obtain ⟨id, -, -, rfl⟩ | ⟨id, -, rfl⟩ | ⟨p, -, -, rfl⟩ | ⟨id, -, rfl⟩ | ⟨t, rfl⟩ :=
      step_cases hstep
    · exact List.Sublist.refl _
    · exact List.filter_sublist
    · exact List.Sublist.refl _
    · exact List.Sublist.refl _
    · exact absurd rfl (hother t)

namespace Sample

/-- The default source "A" is down while "B" is healthy. -/
def down : GroupTick :=
  { members := (AList.singleton "B" ⟨"1/1", true, "组内采集正常且点表完整"⟩).insert "A"
      ⟨"1/1", false, "来源停用"⟩
    pending := false
    latest := fun _ => .ok (true, "1/1")
    defaultSource := "A"
    answer := .ok ()
    sessions := [] }

def downAt (now : Time) : Tick := ⟨now, AList.singleton "G" down, fun _ => .ok ()⟩

def policy : RedundancyPolicy :=
  { groupID := "G", revision := 2, enabled := true, defaultAutomatic := true
    priority := ["A", "B"], failureSeconds := 5, healthySeconds := 5, cooldownSeconds := 30
    compareEnabled := false }

/-- Two ticks under the policy, the second too early for a switch. -/
def waiting : List Action :=
  [.createGroup "G", .replacePolicy policy, .tick (downAt 0), .tick (downAt (4 * second))]

end Sample

/-- Five seconds after the first tick the default source is switched. -/
theorem automatic_switch_qualified_down :
    ∃ s s' w, exec step (Sys.initial ∅ []) Sample.waiting = some s ∧ s.switches = [] ∧
      step s (.tick (Sample.downAt (5 * second))) = some s' ∧ w ∈ s'.switches ∧
      w.source = "A" ∧ w.target = "B" ∧
      Qualified s (Sample.downAt (5 * second) :: ticksSince w.group Sample.waiting)
        (Sample.downAt (5 * second)) w := by
  have hrun : (exec step (Sys.initial ∅ []) Sample.waiting).any (fun s => s.switches.isEmpty &&
      (step s (.tick (Sample.downAt (5 * second)))).any fun s' =>
        s'.switches.any fun w => decide (w.source = "A" ∧ w.target = "B")) = true := by
    decide +kernel
  obtain ⟨s, hs, hstate⟩ := (Option.any_eq_true _ _).mp hrun
  obtain ⟨hempty, hnext⟩ := Bool.and_eq_true_iff.mp hstate
  obtain ⟨s', hs', hswitch⟩ := (Option.any_eq_true _ _).mp hnext
  obtain ⟨w, hw, hroute⟩ := List.any_eq_true.mp hswitch
  obtain ⟨hsource, htarget⟩ := of_decide_eq_true hroute
  have hnone : s.switches = [] := List.isEmpty_iff.mp hempty
  obtain ⟨news, hnews, hqualified⟩ := (automatic_switch_qualified hs).1 _ s' hs'
  rw [hnone, List.append_nil] at hnews
  exact ⟨s, s', w, hs, hnone, hs', hw, hsource, htarget, hqualified w (hnews ▸ hw)⟩

end RcdServer.Redundancy
