import RcdServer.Lib.Maps
import RcdServer.Lib.Run

/-!
# Redundancy

`redundancyService` of `redundancy_service.go` and the tick of `redundancy.go`: for each group a
policy and a state, of which a tick evaluates a detached copy and commits it. What a tick finds
(members with their health and identity, pending commands, routes, and whether these accept a
switch) is its argument. Policies, groups and ticks take turns under the configuration lock.

Left out is the comparison of two sources: it shares the state, but neither reads nor writes what
decides a switch. Times and seconds are integers, a time counting nanoseconds.
-/
namespace RcdServer.Redundancy

open Lib

abbrev Time := Int

def second : Time := 1000000000

/-! ## Policies -/

structure RedundancyPolicy where
  groupID : String
  revision : Nat
  enabled : Bool
  defaultAutomatic : Bool
  priority : List String
  failureSeconds : Int
  healthySeconds : Int
  cooldownSeconds : Int
  compareEnabled : Bool
  deriving DecidableEq

def defaultRedundancyPolicy (group : String) : RedundancyPolicy :=
  { groupID := group, revision := 1, enabled := false, defaultAutomatic := false, priority := []
    failureSeconds := 5, healthySeconds := 5, cooldownSeconds := 30, compareEnabled := false }

/-- Whether a tick observes the group's members. -/
def RedundancyPolicy.observing (p : RedundancyPolicy) : Bool := p.enabled || p.compareEnabled

/-! ## States -/

structure SourceHealth where
  sourceID : String
  healthy : Bool
  reason : String
  since : Time
  deriving DecidableEq

structure View where
  health : List SourceHealth := []
  lastSwitchAt : Option Time := none
  lastSwitchReason : String := ""
  evaluatedAt : Option Time := none
  lastError : String := ""
  deriving DecidableEq

structure RedundancyState where
  view : View
  health : Map String SourceHealth
  identity : Map String String

def newRedundancyState : RedundancyState := ⟨{}, ∅, ∅⟩

/-- A new evaluation begins with an empty report. -/
def RedundancyState.opened (s : RedundancyState) (now : Time) : RedundancyState :=
  { s with view := { s.view with evaluatedAt := some now, lastError := "", health := [] } }

/-- A source of the group as a tick finds it. -/
structure Member where
  identity : String
  healthy : Bool
  reason : String
  deriving DecidableEq

structure Plan where
  target : String := ""
  failed : List String := []
  deriving DecidableEq

def Plan.shouldSwitch (plan : Plan) (current : String) : Bool :=
  current != "" && plan.target != "" && current != plan.target && plan.failed.contains current

namespace RedundancyState

def observe (s : RedundancyState) (now : Time) (id : String) (m : Member) : RedundancyState :=
  let since :=
    match s.health.lookup id with
    | none => now
    | some old =>
      if old.healthy ≠ m.healthy ∨ (s.identity.lookup id).getD "" ≠ m.identity then now
      else old.since
  let h : SourceHealth := ⟨id, m.healthy, m.reason, since⟩
  { view := { s.view with health := s.view.health ++ [h] }
    health := s.health.insert id h
    identity := s.identity.insert id m.identity }

def retainMembers (s : RedundancyState) (members : Map String Member) : RedundancyState :=
  { s with
    health := s.health.keep (· ∈ members)
    -- The identities of the members without health are kept as well.
    identity := s.identity.keep fun id => id ∈ members || id ∉ s.health }

def stable (now : Time) (healthy : Bool) (seconds : Int) (h : SourceHealth) : Bool :=
  h.healthy == healthy && decide (seconds * second ≤ now - h.since)

def automaticSelection (s : RedundancyState) (p : RedundancyPolicy) (pending : Bool) (now : Time) :
    RedundancyState × Plan :=
  if pending then ({ s with view := { s.view with lastError := "命令等待 ACK，自动切源已锁定" } }, {})
  else if s.view.lastSwitchAt.any fun last => now - last < p.cooldownSeconds * second then (s, {})
  else
    match p.priority.find? fun id => (s.health.lookup id).any (stable now true p.healthySeconds) with
    | none =>
      ({ s with view := { s.view with lastError := "没有经过稳定确认的健康备用来源" } }, {})
    | some target =>
      if target = "" then
        ({ s with view := { s.view with lastError := "没有经过稳定确认的健康备用来源" } }, {})
      else
        let failed := (s.health.entries.filter fun e => stable now false p.failureSeconds e.2).map (·.1)
        (s, ⟨target, failed⟩)

end RedundancyState

/-! ## Switching -/

structure Switch where
  group : String
  source : String
  target : String
  time : Time
  deriving DecidableEq

/-- A session's route in the group, and what `SelectAutomatic` answers. -/
structure SessionRoute where
  session : String
  source : String
  automatic : Bool
  answer : Except String Unit

structure GroupTick where
  members : Map String Member
  pending : Bool
  /-- A source's health and identity at the time of the decision. -/
  latest : String → Except String (Bool × String)
  defaultSource : String
  /-- What `setDefaultLocked` answers. -/
  answer : Except String Unit
  sessions : List SessionRoute

namespace RedundancyState

def mark (s : RedundancyState) (now : Time) (source target route : String) : RedundancyState :=
  let reason := ((s.health.lookup source).map (·.reason)).getD ""
  { s with view := { s.view with
      lastSwitchAt := some now
      lastSwitchReason := route ++ "：" ++ source ++ " → " ++ target ++ "；" ++ reason } }

def fail (s : RedundancyState) (error : String) : RedundancyState :=
  { s with view := { s.view with lastError := error } }

/-- One route that may be switched; the switches are listed latest first. -/
def switchRoute (now : Time) (group : String) (plan : Plan) (out : RedundancyState × List Switch)
    (automatic : Bool) (source route : String) (answer : Except String Unit) :
    RedundancyState × List Switch :=
  if automatic && plan.shouldSwitch source then
    match answer with
    | .error e => (out.1.fail e, out.2)
    | .ok () => (out.1.mark now source plan.target route, ⟨group, source, plan.target, now⟩ :: out.2)
  else out

def automaticRoutes (s : RedundancyState) (now : Time) (group : String) (p : RedundancyPolicy)
    (t : GroupTick) : RedundancyState × List Switch :=
  let (s, plan) := s.automaticSelection p t.pending now
  if plan.target = "" then (s, [])
  else
    match t.latest plan.target with
    | .error e => (s.fail e, [])
    | .ok (healthy, identity) =>
      if !healthy || identity != (s.identity.lookup plan.target).getD "" then
        (s.fail "备用来源状态已变化，等待重新确认", [])
      else
        let out := switchRoute now group plan (s, []) p.defaultAutomatic t.defaultSource
          "组默认来源（含中央计算）" t.answer
        t.sessions.foldl
          (fun out r =>
            switchRoute now group plan out r.automatic r.source ("Session " ++ r.session) r.answer)
          out

end RedundancyState

/-! ## The service -/

structure RedundancyService where
  sequence : Nat
  policies : Map String RedundancyPolicy
  states : Map String RedundancyState
  versions : Map String Nat

namespace RedundancyService

def policy (s : RedundancyService) (id : String) : RedundancyPolicy :=
  (s.policies.lookup id).getD (defaultRedundancyPolicy id)

def state (s : RedundancyService) (id : String) : RedundancyState :=
  (s.states.lookup id).getD newRedundancyState

def version (s : RedundancyService) (id : String) : Nat := (s.versions.lookup id).getD 0

/-- The next version of a group. -/
def advance (s : RedundancyService) (id : String) : RedundancyService :=
  { s with sequence := s.sequence + 1, versions := s.versions.insert id (s.sequence + 1) }

def replacePolicy (s : RedundancyService) (p : RedundancyPolicy) : RedundancyService :=
  let state := { s.state p.groupID with health := ∅, identity := ∅ }
  { s with
    policies := s.policies.insert p.groupID p
    states := s.states.insert p.groupID state }.advance p.groupID

/-- The alarm itself belongs to the comparison. -/
def restoreAlarm (s : RedundancyService) (id : String) : RedundancyService :=
  { s with states := s.states.insert id (s.state id) }.advance id

def begin (s : RedundancyService) (id : String) : RedundancyService × RedundancyState × Nat :=
  let s := if s.version id = 0 then s.advance id else s
  (s, s.state id, s.version id)

def commit (s : RedundancyService) (id : String) (version : Nat) (state : RedundancyState) :
    RedundancyService :=
  if version = 0 ∨ s.version id ≠ version then s
  else { s with states := s.states.insert id state }.advance id

def remove (s : RedundancyService) (id : String) : RedundancyService :=
  { s with
    policies := s.policies.erase id, states := s.states.erase id, versions := s.versions.erase id }

/-- The loop of a tick for one group. -/
def evaluate (s : RedundancyService) (now : Time) (id : String) (t : GroupTick) :
    RedundancyService × List Switch :=
  let p := s.policy id
  if !p.observing && id ∉ s.states && p.revision == 1 then (s, [])
  else
    let (s, state, version) := s.begin id
    let state := state.opened now
    if !p.observing then (s.commit id version { state with health := ∅, identity := ∅ }, [])
    else
      let state := t.members.entries.foldl (fun state m => state.observe now m.1 m.2) state
      let state := state.retainMembers t.members
      let (state, switches) := if p.enabled then state.automaticRoutes now id p t else (state, [])
      (s.commit id version state, switches)

/-- A state that no group of the tick has is dropped with its alarm. -/
def dropState (saved : Except String Unit) (s : RedundancyService) (id : String) :
    RedundancyService :=
  let (s, state, version) := s.begin id
  match saved with
  | .ok () => s.remove id
  | .error e => s.commit id version (state.fail ("告警保存失败，将重试：" ++ e))

end RedundancyService

/-! ## The system -/

structure Tick where
  now : Time
  groups : Map String GroupTick
  /-- What saving the alarm of a dropped state answers. -/
  saved : String → Except String Unit

structure Sys where
  service : RedundancyService
  /-- The groups of the configuration. -/
  groups : List String
  /-- The time of the last tick. -/
  clock : Option Time
  /-- The automatic switches, the latest first. -/
  switches : List Switch

inductive Action where
  | createGroup (id : String)
  | deleteGroup (id : String)
  | replacePolicy (p : RedundancyPolicy)
  | restoreAlarm (id : String)
  | tick (t : Tick)

namespace Sys

def initial (policies : Map String RedundancyPolicy) (groups : List String) : Sys :=
  ⟨⟨0, policies, ∅, ∅⟩, groups, none, []⟩

def evaluateGroup (now : Time) (s : Sys) (e : Sigma fun _ : String => GroupTick) : Sys :=
  let (service, switches) := s.service.evaluate now e.1 e.2
  { s with service := service, switches := switches ++ s.switches }

/-- Times do not decrease, and the groups of a tick are those of the configuration. -/
def tick (s : Sys) (t : Tick) : Option Sys :=
  if s.clock.any (t.now < ·) ∨ ¬ (t.groups.keys ⊆ s.groups ∧ s.groups ⊆ t.groups.keys) then none
  else
    let s := t.groups.entries.foldl (evaluateGroup t.now) { s with clock := some t.now }
    let dropped := s.service.states.keys.filter (· ∉ s.groups)
    some { s with
      service := dropped.foldl (fun service id => service.dropState (t.saved id) id) s.service }

end Sys

def step (s : Sys) : Action → Option Sys
  | .createGroup id => if id ∈ s.groups then none else some { s with groups := id :: s.groups }
  | .deleteGroup id =>
    if id ∉ s.groups then none
    else some { s with
      service := s.service.remove id
      groups := s.groups.filter (· ≠ id)
      -- A group takes its switches with it.
      switches := s.switches.filter (·.group ≠ id) }
  | .replacePolicy p =>
    if p.groupID ∈ s.groups then some { s with service := s.service.replacePolicy p } else none
  | .restoreAlarm id => some { s with service := s.service.restoreAlarm id }
  | .tick t => s.tick t

end RcdServer.Redundancy
