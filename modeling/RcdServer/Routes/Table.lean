import Mathlib.Data.List.Infix
import RcdServer.Routes.Configuration

/-!
# The route table

The `RouteTable` of `routes.go`, `command_queue.go` and `route_mode.go`: sessions with a route for
each group, and the commands that reserve a source port, executing or queued. Every operation is
one critical section of the table's lock. `newCommandID` is random; the identifier it returned is
an argument here, as is the clock.
-/
namespace RcdServer.Routes

open Lib

/-! ## Commands -/

inductive CommandState where
  | queued
  | waiting
  | received
  | failed
  | timedOut
  deriving DecidableEq

def terminalCommandState (s : CommandState) : Bool :=
  s == .received || s == .failed || s == .timedOut

def statusBadNoCommunication : Nat := 0x80310000
def statusBadWaitingForResponse : Nat := 0x80B20000
def statusBadTimeout : Nat := 0x800A0000

def commandQueueCapacity : Nat := 64

def commandKindPassiveReset : String := "PassiveReset"

structure PendingCommand where
  id : String
  sessionID : String
  groupID : String
  sourceID : String
  port : String
  kind : String
  nodeID : String
  request : String
  response : String := ""
  state : CommandState
  statusCode : Nat
  error : String := ""
  startedAt : Time
  finishedAt : Time := 0
  deriving DecidableEq

/-- Port names contain no NUL, so the key determines source and port. -/
def portKey (sourceID port : String) : String := sourceID ++ "\x00" ++ port

def PendingCommand.key (c : PendingCommand) : String := portKey c.sourceID c.port

def commandResponse (state : CommandState) (message : String) : String :=
  if state = .received then "1"
  else if state = .failed ∧ "rejected command".toList <:+: (Text.asciiLower message).toList then "3"
  else ""

def PendingCommand.finish (c : PendingCommand) (state : CommandState) (status : Nat)
    (message : String) (now : Time) : PendingCommand :=
  { c with state := state, statusCode := status, error := message, finishedAt := now }

/-! ## Reservations -/

/-- The five maps over accepted commands. -/
structure Reservations where
  pendingByKey : Map String PendingCommand
  pendingByID : Map String String
  pendingByGroup : Map String Int
  queuedByID : Map String PendingCommand
  queuedByPort : Map String (List String)
  deriving DecidableEq

namespace Reservations

def empty : Reservations := ⟨∅, ∅, ∅, ∅, ∅⟩

def pendingCount (r : Reservations) (g : String) : Int := (r.pendingByGroup.lookup g).getD 0

def queue (r : Reservations) (key : String) : List String := (r.queuedByPort.lookup key).getD []

def isQueued (r : Reservations) (id : String) : Bool := (r.queuedByID.lookup id).isSome

def hasPortCommands (r : Reservations) (source port : String) : Bool :=
  (r.pendingByKey.lookup (portKey source port)).isSome || !(r.queue (portKey source port)).isEmpty

def sourcePendingCount (r : Reservations) (sourceID : String) : Nat :=
  Map.count (fun c => c.sourceID == sourceID) r.pendingByKey

def queueHead (r : Reservations) (source port : String) : Option PendingCommand :=
  let key := portKey source port
  if (r.pendingByKey.lookup key).isSome then none
  else (r.queue key).head?.bind fun id => r.queuedByID.lookup id

def retain (r : Reservations) (g : String) : Reservations :=
  { r with pendingByGroup := r.pendingByGroup.insert g (r.pendingCount g + 1) }

/-- One command of the group less; an entry at zero is deleted. -/
def release (r : Reservations) (g : String) : Reservations :=
  if r.pendingCount g - 1 = 0 then { r with pendingByGroup := r.pendingByGroup.erase g }
  else { r with pendingByGroup := r.pendingByGroup.insert g (r.pendingCount g - 1) }

def addExecuting (r : Reservations) (c : PendingCommand) : Reservations :=
  { r with
    pendingByKey := r.pendingByKey.insert c.key c
    pendingByID := r.pendingByID.insert c.id c.key }.retain c.groupID

def addQueued (r : Reservations) (c : PendingCommand) : Reservations :=
  { r with
    queuedByID := r.queuedByID.insert c.id c
    queuedByPort := r.queuedByPort.insert c.key (r.queue c.key ++ [c.id])
    pendingByID := r.pendingByID.insert c.id c.key }.retain c.groupID

def removeQueued (r : Reservations) (id : String) : Reservations :=
  let key := (r.pendingByID.lookup id).getD ""
  let ids := (r.queue key).erase id
  { r with
    queuedByPort :=
      if ids.isEmpty then r.queuedByPort.erase key else r.queuedByPort.insert key ids
    queuedByID := r.queuedByID.erase id
    pendingByID := r.pendingByID.erase id }

/-- A queued command that ends without being sent. -/
def dropQueued (r : Reservations) (c : PendingCommand) : Reservations :=
  (r.removeQueued c.id).release c.groupID

def removeExecuting (r : Reservations) (key id : String) : Reservations :=
  { r with
    pendingByID := r.pendingByID.erase id
    pendingByKey := r.pendingByKey.erase key }

/-- `finishCommandLocked`, without the finished record. -/
def finishExecuting (r : Reservations) (key : String) (c : PendingCommand) : Reservations :=
  (r.removeExecuting key c.id).release c.groupID

def activateQueued (r : Reservations) (id : String) :
    Except RouteError (Reservations × PendingCommand) :=
  match r.queuedByID.lookup id with
  | none => .error .notFound
  | some c =>
    let key := (r.pendingByID.lookup id).getD ""
    if (r.pendingByKey.lookup key).isSome ∨ (r.queue key).head? ≠ some id then
      .error .commandPending
    else
      let c := { c with state := .waiting }
      let r := r.removeQueued id
      .ok ({ r with
        pendingByKey := r.pendingByKey.insert key c
        pendingByID := r.pendingByID.insert id key }, c)

/-- `FinishCommand`: executing or queued. -/
def finishCommand (r : Reservations) (id : String) (state : CommandState) (status : Nat)
    (message : String) (now : Time) : Except RouteError (Reservations × PendingCommand) :=
  if !terminalCommandState state then
    .error (.field "state" "must be Received, Failed, or TimedOut")
  else
    match r.pendingByID.lookup id with
    | none => .error .notFound
    | some key =>
      match r.queuedByID.lookup id with
      | some c => .ok (r.dropQueued c, c.finish state status message now)
      | none =>
        match r.pendingByKey.lookup key with
        -- An identifier that is not queued is executing.
        | none => .error .notFound
        | some c =>
          .ok (r.finishExecuting key c,
            { c.finish state status message now with response := commandResponse state message })

def finishCommandBySourcePort (r : Reservations) (sourceID port : String) (state : CommandState)
    (status : Nat) (message : String) (now : Time) :
    Except RouteError (Reservations × PendingCommand) :=
  if !terminalCommandState state then
    .error (.field "state" "must be Received, Failed, or TimedOut")
  else
    let key := portKey sourceID port
    match r.pendingByKey.lookup key with
    | none => .error .notFound
    | some c =>
      .ok (r.finishExecuting key c,
        { c.finish state status message now with response := commandResponse state message })

/-! The two loops of `SweepExpired`. -/

def expiredExecuting (cutoff : Time) (c : PendingCommand) : Bool :=
  c.kind != commandKindPassiveReset && decide (c.startedAt ≤ cutoff)

def sweepExecuting (cutoff : Time) (r : Reservations) :
    List (Sigma fun _ : String => PendingCommand) → Reservations
  | [] => r
  | ⟨key, c⟩ :: rest =>
    if expiredExecuting cutoff c then sweepExecuting cutoff (r.finishExecuting key c) rest
    else sweepExecuting cutoff r rest

def sweepQueued (cutoff : Time) (r : Reservations) :
    List (Sigma fun _ : String => PendingCommand) → Reservations
  | [] => r
  | ⟨_, c⟩ :: rest =>
    if c.startedAt ≤ cutoff then sweepQueued cutoff (r.dropQueued c) rest
    else sweepQueued cutoff r rest

def sweepExpired (r : Reservations) (now maxAge : Time) : Reservations × List PendingCommand :=
  if maxAge ≤ 0 then (r, [])
  else
    let cutoff := now - maxAge
    let executing := (r.pendingByKey.entries.map (·.2)).filter (expiredExecuting cutoff)
    let queued := (r.queuedByID.entries.map (·.2)).filter fun c => c.startedAt ≤ cutoff
    (sweepQueued cutoff (sweepExecuting cutoff r r.pendingByKey.entries) r.queuedByID.entries,
      executing.map (·.finish .timedOut statusBadTimeout "command timed out" now) ++
        queued.map (·.finish .timedOut statusBadTimeout "queued command expired; not sent" now))

end Reservations

/-! ## Sessions -/

structure GroupRoute where
  groupID : String
  sourceID : String
  revision : Nat
  automatic : Bool
  deriving DecidableEq

structure Session where
  id : String
  activatedAt : Time
  lastSeenAt : Time
  routes : Map String GroupRoute
  deriving DecidableEq

structure RouteTable where
  config : Configuration
  sessions : Map String Session
  commands : Reservations
  deriving DecidableEq

namespace RouteTable

def new (config : Configuration) : RouteTable := ⟨config, ∅, .empty⟩

/-- The default, when it can be selected. -/
def selectableDefault (config : Configuration) (g : String) (group : Group) : String :=
  if group.defaultSourceID ≠ "" ∧ (config.validateSource g group.defaultSourceID).isOk then
    group.defaultSourceID
  else ""

def openSession (t : RouteTable) (id : String) (automatic : Map String Bool) (now : Time) :
    Except RouteError (RouteTable × Session) :=
  if id = "" then .error (.field "session_id" "must not be empty")
  else
    match t.sessions.lookup id with
    | some existing =>
      let session := { existing with lastSeenAt := now }
      .ok ({ t with sessions := t.sessions.insert id session }, session)
    | none =>
      let routes := t.config.groups.mapValues fun g group =>
        ⟨g, selectableDefault t.config g group, 1, (automatic.lookup g).getD false⟩
      let session := ⟨id, now, now, routes⟩
      .ok ({ t with sessions := t.sessions.insert id session }, session)

def touchSession (t : RouteTable) (id : String) (now : Time) : Except RouteError RouteTable :=
  match t.sessions.lookup id with
  | none => .error .sessionClosed
  | some s => .ok { t with sessions := t.sessions.insert id { s with lastSeenAt := now } }

def closeSession (t : RouteTable) (id : String) : RouteTable :=
  { t with sessions := t.sessions.erase id }

/-- Replace one route of a session. -/
def setRoute (t : RouteTable) (id : String) (s : Session) (g : String) (route : GroupRoute) :
    RouteTable :=
  { t with sessions := t.sessions.insert id { s with routes := s.routes.insert g route } }

def selectRoute (t : RouteTable) (sessionID groupID sourceID : String) (expected : Nat)
    (automatic : Bool) (now : Time) : Except RouteError (RouteTable × GroupRoute) :=
  if t.commands.pendingCount groupID > 0 then .error .groupPending
  else
    match t.sessions.lookup sessionID with
    | none => .error .sessionClosed
    | some s =>
      match s.routes.lookup groupID with
      | none => .error .notFound
      | some route =>
        if route.revision ≠ expected then .error (.conflictingRevision expected route.revision)
        else
          match t.config.validateSource groupID sourceID with
          | .error e => .error e
          | .ok () =>
            if automatic && !route.automatic then .error .revisionConflict
            else
              let route := { route with
                sourceID := sourceID, automatic := automatic, revision := route.revision + 1 }
              .ok (t.setRoute sessionID { s with lastSeenAt := now } groupID route, route)

def setAutomatic (t : RouteTable) (sessionID groupID : String) (automatic : Bool)
    (revision : Nat) : Except RouteError (RouteTable × GroupRoute) :=
  match t.sessions.lookup sessionID with
  | none => .error .sessionClosed
  | some s =>
    match s.routes.lookup groupID with
    | none => .error .notFound
    | some route =>
      if route.revision ≠ revision then .error (.conflictingRevision revision route.revision)
      else if t.commands.pendingCount groupID > 0 then .error .groupPending
      else
        let route := { route with automatic := automatic, revision := route.revision + 1 }
        .ok (t.setRoute sessionID s groupID route, route)

def setDefault (t : RouteTable) (groupID sourceID : String) (expected : Nat) :
    Except RouteError RouteTable :=
  if t.commands.pendingCount groupID > 0 then .error .groupPending
  else
    match t.config.groups.lookup groupID with
    | none => .error .notFound
    | some group =>
      if group.revision ≠ expected then .error (.conflictingRevision expected group.revision)
      else
        match h : t.config.validateSource groupID sourceID with
        | .error e => .error e
        | .ok () => .ok { t with config := t.config.setDefault groupID group sourceID h }

/-! ## Commands of a session -/

def beginCommand (t : RouteTable) (sessionID groupID port kind nodeID request id : String)
    (now : Time) : Except RouteError (RouteTable × PendingCommand) :=
  if port = "" then .error (.field "port" "must not be empty")
  else if kind = "" then .error (.field "kind" "must not be empty")
  else
    match t.sessions.lookup sessionID with
    | none => .error .sessionClosed
    | some s =>
      match s.routes.lookup groupID with
      | none => .error .notFound
      | some route =>
        if route.sourceID = "" then .error .notFound
        else
          match t.config.validateSource groupID route.sourceID with
          | .error e => .error e
          | .ok () =>
            let key := portKey route.sourceID port
            if (t.commands.pendingByKey.lookup key).isSome then .error .commandPending
            else if (t.commands.queue key).length ≠ 0 then .error .commandPending
            else
              let c : PendingCommand :=
                { id := id, sessionID := sessionID, groupID := groupID
                  sourceID := route.sourceID, port := port, kind := kind, nodeID := nodeID
                  request := request, state := .waiting
                  statusCode := statusBadWaitingForResponse, startedAt := now }
              .ok ({ t with commands := t.commands.addExecuting c }, c)

def enqueueWrite (t : RouteTable) (sessionID groupID port nodeID request id : String)
    (now : Time) : Except RouteError (RouteTable × PendingCommand) :=
  match t.sessions.lookup sessionID with
  | none => .error .sessionClosed
  | some s =>
    match s.routes.lookup groupID with
    | none => .error .notFound
    | some route =>
      if route.sourceID = "" ∨ port = "" then .error .notFound
      else
        match t.config.validateSource groupID route.sourceID with
        | .error e => .error e
        | .ok () =>
          let key := portKey route.sourceID port
          let active := t.commands.pendingByKey.lookup key
          let count := (t.commands.queue key).length + if active.isSome then 1 else 0
          if active.any (·.kind == commandKindPassiveReset) then .error .commandPending
          else if count ≥ commandQueueCapacity then
            .error (.wrapped "physical port command queue full (%d including executing): %w"
              [toString commandQueueCapacity] .commandPending)
          else
            let c : PendingCommand :=
              { id := id, sessionID := sessionID, groupID := groupID
                sourceID := route.sourceID, port := port, kind := "Write", nodeID := nodeID
                request := request, state := .queued
                statusCode := statusBadWaitingForResponse, startedAt := now }
            .ok ({ t with commands := t.commands.addQueued c }, c)

def restorePending (t : RouteTable) (c : PendingCommand) (now : Time) :
    Except RouteError RouteTable :=
  if c.id = "" ∨ c.port = "" ∨ c.groupID = "" ∨ c.sourceID = "" then
    .error (.field "pending_command" "id, group_id, source_id, and port are required")
  else if c.state ≠ .waiting then
    .error (.field "state" "only Waiting commands can be restored")
  else if c.finishedAt ≠ 0 then
    .error (.field "finished_at" "a Waiting command cannot already be finished")
  else
    match t.config.validateSourceMembership c.groupID c.sourceID with
    | .error e => .error e
    | .ok _ =>
      if (t.commands.pendingByID.lookup c.id).isSome then .error .alreadyExists
      else if (t.commands.pendingByKey.lookup c.key).isSome then .error .commandPending
      else
        let c := { c with
          startedAt := if c.startedAt = 0 then now else c.startedAt
          statusCode := statusBadWaitingForResponse }
        .ok { t with commands := t.commands.addExecuting c }

/-! ## Finishing with the queue -/

/-- The route of a session that a group's last command gives up: it can no longer be selected. -/
def unselectableRoute (config : Configuration) (g : String) (s : Session) : Option GroupRoute :=
  match s.routes.lookup g with
  | none => none
  | some route =>
    if route.automatic || route.sourceID == "" || (config.validateSource g route.sourceID).isOk then
      none
    else some { route with sourceID := "", revision := route.revision + 1 }

def invalidateSession (config : Configuration) (g : String) (s : Session) : Session :=
  match unselectableRoute config g s with
  | none => s
  | some route => { s with routes := s.routes.insert g route }

def invalidateUnselectableRoutes (t : RouteTable) (g : String) :
    RouteTable × List (String × GroupRoute) :=
  ({ t with sessions := t.sessions.mapValues fun _ s => invalidateSession t.config g s },
    t.sessions.entries.filterMap fun e => (unselectableRoute t.config g e.2).map (e.1, ·))

/-- What `CommitCommandFinishWithQueue` has done so far. -/
structure Finish where
  table : RouteTable
  changes : List (String × GroupRoute) := []
  cancelled : List PendingCommand := []

/-- One command of the group less; the last one invalidates routes. -/
def Finish.release (f : Finish) (g : String) : Finish :=
  let t := { f.table with commands := f.table.commands.release g }
  if f.table.commands.pendingCount g - 1 = 0 then
    let (t, changes) := t.invalidateUnselectableRoutes g
    { f with table := t, changes := f.changes ++ changes }
  else { f with table := t }

def Finish.cancel (f : Finish) (c : PendingCommand) (now : Time) : Finish :=
  let record := c.finish .failed statusBadNoCommunication
    "preceding command outcome unconfirmed; queued command not sent" now
  { f with
    table := { f.table with commands := f.table.commands.removeQueued c.id }
    cancelled := f.cancelled ++ [record] }.release c.groupID

def cancelTail (now : Time) (id : String) (f : Finish) : List String → Finish
  | [] => f
  | queuedID :: rest =>
    if queuedID = id then cancelTail now id f rest
    else
      match f.table.commands.queuedByID.lookup queuedID with
      -- Every identifier of a port's queue is queued.
      | none => cancelTail now id f rest
      | some c => cancelTail now id (f.cancel c now) rest

def commitCommandFinish (t : RouteTable) (id : String) (cancel : Bool) (now : Time) :
    Except RouteError Finish :=
  match t.commands.pendingByID.lookup id with
  | none => .error .notFound
  | some key =>
    let f : Finish := { table := t }
    let f := if cancel then cancelTail now id f (t.commands.queue key) else f
    let commands := f.table.commands
    match commands.queuedByID.lookup id with
    | some c =>
      .ok ({ f with table := { f.table with commands := commands.removeQueued id } }.release
        c.groupID)
    | none =>
      match commands.pendingByKey.lookup key with
      -- An identifier that is not queued is executing.
      | none => .error .notFound
      | some c =>
        .ok ({ f with table := { f.table with commands := commands.removeExecuting key id } }.release
          c.groupID)

end RouteTable

end RcdServer.Routes
