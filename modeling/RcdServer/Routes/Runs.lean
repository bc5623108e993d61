import RcdServer.Lib.Run
import RcdServer.Routes.Table

/-!
# Runs of the route table

`ApplyConfiguration` and `CommitConfiguration`, and the table as a state machine over all its
operations. `CommitConfiguration` validates and applies in two critical sections; the
configuration lock it holds in between keeps out every operation that takes it for reading.
-/
namespace RcdServer.Routes

open Lib

namespace RouteTable

/-! ## A change of configuration -/

def validateGroups (t : RouteTable) (candidate : Configuration) :
    List (Sigma fun _ : String => Group) → Except RouteError Unit
  | [] => .ok ()
  | ⟨g, group⟩ :: rest =>
    match candidate.groups.lookup g with
    | some next =>
      if t.commands.pendingCount g > 0 ∧ next.defaultSourceID ≠ group.defaultSourceID then
        .error .groupPending
      else validateGroups t candidate rest
    | none =>
      if t.commands.pendingCount g > 0 then .error .groupPending
      else if t.sessions.entries ≠ [] then .error (.wrapped "group %q: %w" [g] .groupInUse)
      else validateGroups t candidate rest

def sourceInUse (t : RouteTable) (sourceID : String) : Bool :=
  t.commands.queuedByID.entries.any (fun e => e.2.sourceID == sourceID) ||
    t.config.groups.entries.any (fun e => e.2.defaultSourceID == sourceID) ||
    t.sessions.entries.any (fun e => e.2.routes.entries.any fun r => r.2.sourceID == sourceID) ||
    t.commands.pendingByKey.entries.any (fun e => e.2.sourceID == sourceID)

/-- The source loses its group, or is removed. -/
def validateRemoval (t : RouteTable) (candidate : Configuration) (sourceID : String)
    (old : Source) : Except RouteError Unit :=
  -- The source of a removed group counts as validated with the group.
  if old.groupID ∉ candidate.groups then .ok ()
  else if t.sourceInUse sourceID then .error (.wrapped "source %q: %w" [sourceID] .sourceInUse)
  else .ok ()

def validateSourceTransition (t : RouteTable) (candidate : Configuration) (sourceID : String)
    (old : Source) : Except RouteError Unit :=
  match candidate.sources.lookup sourceID with
  | none => t.validateRemoval candidate sourceID old
  | some new =>
    if sameGroupBindings new.groupBindings old.groupBindings then
      if new.groupID = old.groupID then .ok () else t.validateRemoval candidate sourceID old
    else if t.sessions.entries ≠ [] then
      .error (.wrapped "source %q bindings: %w" [sourceID] .groupInUse)
    else if (old.groupIDs ++ new.groupIDs).any fun g => t.commands.pendingCount g > 0 then
      .error .groupPending
    else if new.groupID = old.groupID then .ok ()
    else t.validateRemoval candidate sourceID old

def validateSources (t : RouteTable) (candidate : Configuration) :
    List (Sigma fun _ : String => Source) → Except RouteError Unit
  | [] => .ok ()
  | ⟨id, old⟩ :: rest =>
    match t.validateSourceTransition candidate id old with
    | .error e => .error e
    | .ok () => validateSources t candidate rest

def validateConfigurationTransition (t : RouteTable) (candidate : Configuration) :
    Except RouteError Unit :=
  match t.validateGroups candidate t.config.groups.entries with
  | .error e => .error e
  | .ok () => t.validateSources candidate t.config.sources.entries

/-- A command pins its route, and an automatic route keeps its source for the failover. -/
def revalidateRoute (config : Configuration) (pinned : String → Bool) (g : String)
    (route : GroupRoute) : GroupRoute :=
  if route.sourceID = "" ∨ (config.validateSource g route.sourceID).isOk then route
  else if pinned g || route.automatic then route
  else { route with sourceID := "", revision := route.revision + 1 }

def applyToSession (config : Configuration) (pinned : String → Bool) (s : Session) : Session :=
  let kept := s.routes.keep fun g => decide (g ∈ config.groups)
  let filled := kept.fill (fun g group => ⟨g, selectableDefault config g group, 1, false⟩)
    config.groups.entries
  { s with routes := filled.mapValues (revalidateRoute config pinned) }

def applyConfiguration (t : RouteTable) (candidate : Configuration) : RouteTable :=
  { t with
    config := candidate
    sessions := t.sessions.mapValues fun _ =>
      applyToSession candidate fun g => decide (t.commands.pendingCount g > 0) }

end RouteTable

/-! ## The state machine -/

structure Sys where
  table : RouteTable
  /-- The validated candidate of a `CommitConfiguration` under way. -/
  committing : Option Configuration
  /-- The identifiers used so far; a new one is never among them. -/
  issued : List String
  /-- Writes in the order of their acceptance, and of their activation, with their port key. -/
  accepted : List (String × String)
  activated : List (String × String)
  deriving DecidableEq

inductive Action where
  | openSession (id : String) (automatic : Map String Bool) (now : Time)
  | touchSession (id : String) (now : Time)
  | closeSession (id : String)
  | selectRoute (sessionID groupID sourceID : String) (expected : Nat) (automatic : Bool)
      (now : Time)
  | setAutomatic (sessionID groupID : String) (automatic : Bool) (revision : Nat)
  | setDefault (groupID sourceID : String) (expected : Nat)
  | beginCommand (sessionID groupID port kind nodeID request id : String) (now : Time)
  | restorePending (c : PendingCommand) (now : Time)
  | enqueueWrite (sessionID groupID port nodeID request id : String) (now : Time)
  | activateQueued (id : String)
  | finishCommand (id : String) (state : CommandState) (status : Nat) (message : String)
      (now : Time)
  | finishCommandBySourcePort (sourceID port : String) (state : CommandState) (status : Nat)
      (message : String) (now : Time)
  | commitCommandFinish (id : String) (cancel : Bool) (now : Time)
  | sweepExpired (now maxAge : Time)
  | applyConfiguration (groups : List Group) (sources : List Source)
  /-- The three parts of `CommitConfiguration`: `persist` fails or succeeds in between. -/
  | prepareConfiguration (groups : List Group) (sources : List Source)
  | abandonConfiguration
  | publishConfiguration (revisions : Map String Nat)

namespace Sys

def initial (config : Configuration) : Sys := ⟨.new config, none, [], [], []⟩

/-- The table after a call; a failed call leaves it as it was. -/
def after (s : Sys) : Except RouteError RouteTable → Sys
  | .ok t => { s with table := t }
  | .error _ => s

def withCommands (s : Sys) : Except RouteError (Reservations × PendingCommand) → Sys
  | .ok (r, _) => { s with table := { s.table with commands := r } }
  | .error _ => s

/-- A candidate that can be applied. -/
def candidate (s : Sys) (groups : List Group) (sources : List Source) :
    Except RouteError Configuration :=
  match newConfiguration groups sources with
  | .error e => .error e
  | .ok candidate =>
    match s.table.validateConfigurationTransition candidate with
    | .error e => .error e
    | .ok () => .ok candidate

/-- The operations that take the configuration lock for reading. -/
def locked (s : Sys) : Action → Option Sys
  | .openSession id automatic now => some (s.after ((s.table.openSession id automatic now).map (·.1)))
  | .closeSession id => some { s with table := s.table.closeSession id }
  | .selectRoute sessionID groupID sourceID expected automatic now =>
    some (s.after ((s.table.selectRoute sessionID groupID sourceID expected automatic now).map (·.1)))
  | .setAutomatic sessionID groupID automatic revision =>
    some (s.after ((s.table.setAutomatic sessionID groupID automatic revision).map (·.1)))
  | .setDefault groupID sourceID expected =>
    some (s.after (s.table.setDefault groupID sourceID expected))
  | .beginCommand sessionID groupID port kind nodeID request id now =>
    if id ∈ s.issued then none
    else
      match s.table.beginCommand sessionID groupID port kind nodeID request id now with
      | .error _ => some s
      | .ok (t, _) => some { s with table := t, issued := id :: s.issued }
  | .restorePending c now =>
    match s.table.restorePending c now with
    | .error _ => some s
    | .ok t => some { s with table := t, issued := c.id :: s.issued }
  | .enqueueWrite sessionID groupID port nodeID request id now =>
    if id ∈ s.issued then none
    else
      match s.table.enqueueWrite sessionID groupID port nodeID request id now with
      | .error _ => some s
      | .ok (t, c) =>
        some { s with
          table := t, issued := id :: s.issued, accepted := s.accepted ++ [(c.key, id)] }
  | .commitCommandFinish id cancel now =>
    some (s.after ((s.table.commitCommandFinish id cancel now).map (·.table)))
  | .applyConfiguration groups sources =>
    some (s.after ((s.candidate groups sources).map s.table.applyConfiguration))
  | .prepareConfiguration groups sources =>
    match s.candidate groups sources with
    | .error _ => some s
    | .ok candidate => some { s with committing := some candidate }
  | _ => none

end Sys

def step (s : Sys) : Action → Option Sys
  | .touchSession id now => some (s.after (s.table.touchSession id now))
  | .activateQueued id =>
    match s.table.commands.activateQueued id with
    | .error _ => some s
    | .ok (r, c) =>
      some { s with
        table := { s.table with commands := r }, activated := s.activated ++ [(c.key, id)] }
  | .finishCommand id state status message now =>
    some (s.withCommands (s.table.commands.finishCommand id state status message now))
  | .finishCommandBySourcePort sourceID port state status message now =>
    some (s.withCommands
      (s.table.commands.finishCommandBySourcePort sourceID port state status message now))
  | .sweepExpired now maxAge =>
    some { s with table := { s.table with
      commands := (s.table.commands.sweepExpired now maxAge).1 } }
  | .abandonConfiguration => s.committing.map fun _ => { s with committing := none }
  | .publishConfiguration revisions =>
    s.committing.map fun candidate =>
      { s with
        table := s.table.applyConfiguration (candidate.mergePersisted revisions)
        committing := none }
  | a => if s.committing.isSome then none else s.locked a

/-! ## Calls -/

section Calls

variable {s s' : Sys} {a : Action}

/-- What a step calls and what the call has returned; a refused call leaves the state alone. -/
inductive Call (s : Sys) : Action → Sys → Prop
  | refused {a : Action} : Call s a s
  | openSession {id : String} {automatic : Map String Bool} {now : Time}
      {out : RouteTable × Session} (hfree : s.committing = none)
      (hout : s.table.openSession id automatic now = .ok out) :
      Call s (.openSession id automatic now) { s with table := out.1 }
  | touchSession {id : String} {now : Time} {t : RouteTable}
      (hout : s.table.touchSession id now = .ok t) :
      Call s (.touchSession id now) { s with table := t }
  | closeSession {id : String} (hfree : s.committing = none) :
      Call s (.closeSession id) { s with table := s.table.closeSession id }
  | selectRoute {sessionID groupID sourceID : String} {expected : Nat} {automatic : Bool}
      {now : Time} {out : RouteTable × GroupRoute} (hfree : s.committing = none)
      (hout : s.table.selectRoute sessionID groupID sourceID expected automatic now = .ok out) :
      Call s (.selectRoute sessionID groupID sourceID expected automatic now)
        { s with table := out.1 }
  | setAutomatic {sessionID groupID : String} {automatic : Bool} {revision : Nat}
      {out : RouteTable × GroupRoute} (hfree : s.committing = none)
      (hout : s.table.setAutomatic sessionID groupID automatic revision = .ok out) :
      Call s (.setAutomatic sessionID groupID automatic revision) { s with table := out.1 }
  | setDefault {groupID sourceID : String} {expected : Nat} {t : RouteTable}
      (hfree : s.committing = none) (hout : s.table.setDefault groupID sourceID expected = .ok t) :
      Call s (.setDefault groupID sourceID expected) { s with table := t }
  | beginCommand {sessionID groupID port kind nodeID request id : String} {now : Time}
      {out : RouteTable × PendingCommand} (hfree : s.committing = none) (hnew : id ∉ s.issued)
      (hout : s.table.beginCommand sessionID groupID port kind nodeID request id now = .ok out) :
      Call s (.beginCommand sessionID groupID port kind nodeID request id now)
        { s with table := out.1, issued := id :: s.issued }
  | restorePending {c : PendingCommand} {now : Time} {t : RouteTable}
      (hfree : s.committing = none) (hout : s.table.restorePending c now = .ok t) :
      Call s (.restorePending c now) { s with table := t, issued := c.id :: s.issued }
  | enqueueWrite {sessionID groupID port nodeID request id : String} {now : Time}
      {out : RouteTable × PendingCommand} (hfree : s.committing = none) (hnew : id ∉ s.issued)
      (hout : s.table.enqueueWrite sessionID groupID port nodeID request id now = .ok out) :
      Call s (.enqueueWrite sessionID groupID port nodeID request id now) { s with
        table := out.1, issued := id :: s.issued, accepted := s.accepted ++ [(out.2.key, id)] }
  | activateQueued {id : String} {out : Reservations × PendingCommand}
      (hout : s.table.commands.activateQueued id = .ok out) :
      Call s (.activateQueued id) { s with
        table := { s.table with commands := out.1 }
        activated := s.activated ++ [(out.2.key, id)] }
  | finishCommand {id : String} {state : CommandState} {status : Nat} {message : String}
      {now : Time} {out : Reservations × PendingCommand}
      (hout : s.table.commands.finishCommand id state status message now = .ok out) :
      Call s (.finishCommand id state status message now)
        { s with table := { s.table with commands := out.1 } }
  | finishCommandBySourcePort {sourceID port : String} {state : CommandState} {status : Nat}
      {message : String} {now : Time} {out : Reservations × PendingCommand}
      (hout : s.table.commands.finishCommandBySourcePort sourceID port state status message now =
        .ok out) :
      Call s (.finishCommandBySourcePort sourceID port state status message now)
        { s with table := { s.table with commands := out.1 } }
  | commitCommandFinish {id : String} {cancel : Bool} {now : Time} {f : RouteTable.Finish}
      (hfree : s.committing = none) (hout : s.table.commitCommandFinish id cancel now = .ok f) :
      Call s (.commitCommandFinish id cancel now) { s with table := f.table }
  | sweepExpired {now maxAge : Time} :
      Call s (.sweepExpired now maxAge) { s with table := { s.table with
        commands := (s.table.commands.sweepExpired now maxAge).1 } }
  | applyConfiguration {groups : List Group} {sources : List Source} {candidate : Configuration}
      (hfree : s.committing = none) (hout : s.candidate groups sources = .ok candidate) :
      Call s (.applyConfiguration groups sources)
        { s with table := s.table.applyConfiguration candidate }
  | prepareConfiguration {groups : List Group} {sources : List Source} {candidate : Configuration}
      (hfree : s.committing = none) (hout : s.candidate groups sources = .ok candidate) :
      Call s (.prepareConfiguration groups sources) { s with committing := some candidate }
  | abandonConfiguration {candidate : Configuration} (hcommitting : s.committing = some candidate) :
      Call s .abandonConfiguration { s with committing := none }
  | publishConfiguration {revisions : Map String Nat} {candidate : Configuration}
      (hcommitting : s.committing = some candidate) :
      Call s (.publishConfiguration revisions) { s with
        table := s.table.applyConfiguration (candidate.mergePersisted revisions)
        committing := none }

theorem call_after {out : Except RouteError RouteTable}
    (hok : ∀ t, out = .ok t → Call s a { s with table := t }) : Call s a (s.after out) := by
  cases out with
  | error e => exact .refused
  | ok t => exact hok t rfl

theorem call_after_map {α : Type} {x : Except RouteError α} {f : α → RouteTable}
    (hok : ∀ out, x = .ok out → Call s a { s with table := f out }) :
    Call s a (s.after (x.map f)) := by
  cases x with
  | error e => exact .refused
  | ok out => exact hok out rfl

theorem call_withCommands {out : Except RouteError (Reservations × PendingCommand)}
    (hok : ∀ x, out = .ok x → Call s a { s with table := { s.table with commands := x.1 } }) :
    Call s a (s.withCommands out) := by
  cases out with
  | error e => exact .refused
  | ok x => exact hok x rfl

/-- The calls that take the configuration lock for reading. -/
theorem locked_call (hfree : s.committing = none) (h : s.locked a = some s') : Call s a s' := by
  cases a with
  | openSession id automatic now =>
    cases h
    exact call_after_map fun out hout => .openSession hfree hout
  | closeSession id =>
    cases h
    exact .closeSession hfree
  | selectRoute sessionID groupID sourceID expected automatic now =>
    cases h
    exact call_after_map fun out hout => .selectRoute hfree hout
  | setAutomatic sessionID groupID automatic revision =>
    cases h
    exact call_after_map fun out hout => .setAutomatic hfree hout
  | setDefault groupID sourceID expected =>
    cases h
    exact call_after fun t hout => .setDefault hfree hout
  | beginCommand sessionID groupID port kind nodeID request id now =>
    simp only [Sys.locked] at h
    split at h
    · cases h
    rename_i hnew
    generalize hout : s.table.beginCommand sessionID groupID port kind nodeID request id now = out
      at h
    cases out with
    | error e =>
      cases h
      exact .refused
    | ok out =>
      cases h
      exact .beginCommand hfree hnew hout
  | restorePending c now =>
    simp only [Sys.locked] at h
    generalize hout : s.table.restorePending c now = out at h
    cases out with
    | error e =>
      cases h
      exact .refused
    | ok t =>
      cases h
      exact .restorePending hfree hout
  | enqueueWrite sessionID groupID port nodeID request id now =>
    simp only [Sys.locked] at h
    split at h
    · cases h
    rename_i hnew
    generalize hout : s.table.enqueueWrite sessionID groupID port nodeID request id now = out at h
    cases out with
    | error e =>
      cases h
      exact .refused
    | ok out =>
      cases h
      exact .enqueueWrite hfree hnew hout
  | commitCommandFinish id cancel now =>
    cases h
    exact call_after_map fun f hout => .commitCommandFinish hfree hout
  | applyConfiguration groups sources =>
    cases h
    exact call_after_map fun candidate hout => .applyConfiguration hfree hout
  | prepareConfiguration groups sources =>
    simp only [Sys.locked] at h
    generalize hout : s.candidate groups sources = out at h
    cases out with
    | error e =>
      cases h
      exact .refused
    | ok candidate =>
      cases h
      exact .prepareConfiguration hfree hout
  | touchSession | activateQueued | finishCommand | finishCommandBySourcePort | sweepExpired
  | abandonConfiguration | publishConfiguration => cases h

theorem step_call (h : step s a = some s') : Call s a s' := by
  have hlocked : (if s.committing.isSome then none else s.locked a) = some s' → Call s a s' := by
    intro h
    split at h
    · cases h
    · rename_i hfree
      exact locked_call (by simpa using hfree) h
  cases a with
  | touchSession id now =>
    cases h
    exact call_after fun t hout => .touchSession hout
  | activateQueued id =>
    simp only [step] at h
    generalize hout : s.table.commands.activateQueued id = out at h
    cases out with
    | error e =>
      cases h
      exact .refused
    | ok out =>
      cases h
      exact .activateQueued hout
  | finishCommand id state status message now =>
    cases h
    exact call_withCommands fun out hout => .finishCommand hout
  | finishCommandBySourcePort sourceID port state status message now =>
    cases h
    exact call_withCommands fun out hout => .finishCommandBySourcePort hout
  | sweepExpired now maxAge =>
    cases h
    exact .sweepExpired
  | abandonConfiguration =>
    obtain ⟨candidate, hcommitting, rfl⟩ := Option.map_eq_some_iff.mp h
    exact .abandonConfiguration hcommitting
  | publishConfiguration revisions =>
    obtain ⟨candidate, hcommitting, rfl⟩ := Option.map_eq_some_iff.mp h
    exact .publishConfiguration hcommitting
  | openSession | closeSession | selectRoute | setAutomatic | setDefault | beginCommand
  | restorePending | enqueueWrite | commitCommandFinish | applyConfiguration
  | prepareConfiguration => exact hlocked h

end Calls

end RcdServer.Routes
