import RcdServer.Lib.Maps
import RcdServer.Routes.Table

/-!
# The stored evidence of commands

`SaveCommand` of `store/audit.go` and the traces of `store/command_tracking.go`: a row for each
command, of which an update rewrites the outcome only; a row for its trace, which keeps the target
it was begun with, the newest snapshot and the mark of a gap; every snapshot as an event, and a
cursor for each source and gateway. Times are stored as they are.
-/
namespace RcdServer.Audit

open Lib Routes

/-! ## Evidence of the lower -/

structure CommandAttempt where
  attempt : Nat
  sent : Bool
  result : String
  time : String
  deriving DecidableEq

structure TrackedCommand where
  schemaVersion : Nat
  managerInstanceID : String
  commandID : String
  gatewayInstanceID : String
  bootID : String
  portID : String
  requestHash : String
  phase : String
  attemptCount : Nat
  sentCount : Nat
  attempts : List CommandAttempt
  revision : Nat
  updatedAt : String
  deriving DecidableEq

def isHexDigit (c : Char) : Bool :=
  c.isDigit || (decide ('a' ≤ c) && decide (c ≤ 'f')) || (decide ('A' ≤ c) && decide (c ≤ 'F'))

def commandPhases : List String :=
  ["Accepted", "Executing", "AckReceived", "Failed", "Expired", "Unknown", "SentUnconfirmed"]

/-- `parse` is `time.Parse` with its error's text. -/
def validateAttempts (parse : String → Except String Unit) (count previous : Nat) :
    List CommandAttempt → Except String Unit
  | [] => .ok ()
  | a :: rest =>
    if a.attempt ≤ previous ∨ a.attempt > count then .error "invalid attempt sequence"
    else
      match parse a.time with
      | .error e => .error e
      | .ok () => validateAttempts parse count a.attempt rest

def TrackedCommand.validate (parse : String → Except String Unit) (v : TrackedCommand) :
    Except String Unit :=
  if v.schemaVersion ≠ 1 ∨ v.commandID = "" ∨ v.managerInstanceID = "" ∨
      v.gatewayInstanceID = "" ∨ v.bootID = "" ∨ v.portID = "" ∨ v.revision = 0 ∨
      v.revision > 9007199254740991 ∨ v.sentCount > v.attemptCount ∨ v.attempts.length > 10000 ∨
      v.requestHash.utf8ByteSize ≠ 64 then
    .error "invalid tracked command snapshot"
  else if !v.requestHash.toList.all isHexDigit then .error "invalid request hash"
  else
    match validateAttempts parse v.attemptCount 0 v.attempts with
    | .error e => .error e
    | .ok () => if v.phase ∈ commandPhases then parse v.updatedAt else .error "invalid command phase"

/-- What a trace is pinned to. -/
structure Target where
  protocol : String
  gatewayInstanceID : String
  bootID : String
  physicalPort : String
  requestHash : String
  deriving DecidableEq

structure CommandTrace where
  target : Target
  snapshot : Option TrackedCommand := none
  historyGap : Bool := false
  deriving DecidableEq

structure CommandDetail where
  command : PendingCommand
  trace : Option CommandTrace := none
  deriving DecidableEq

/-! ## The tables -/

structure TraceRow where
  target : Target
  revision : Nat := 0
  snapshot : Option TrackedCommand := none
  historyGap : Bool
  deriving DecidableEq

structure Repository where
  /-- `command_audit`. -/
  commands : Map String PendingCommand
  /-- `command_trace`. -/
  traces : Map String TraceRow
  /-- `command_trace_events`. -/
  events : Map (String × Nat) TrackedCommand
  /-- `command_trace_cursor`. -/
  cursors : Map (String × String) Nat

namespace Repository

def saveCommand (r : Repository) (c : PendingCommand) : Repository :=
  let row :=
    match r.commands.lookup c.id with
    | none => c
    | some row => { row with
        state := c.state, statusCode := c.statusCode, error := c.error, response := c.response
        finishedAt := c.finishedAt }
  { r with commands := r.commands.insert c.id row }

def beginCommandTrace (r : Repository) (id : String) (trace : CommandTrace) :
    Except String Repository :=
  if id ∉ r.commands then .error "FOREIGN KEY constraint failed"
  else
    match r.traces.lookup id with
    | none =>
      let row : TraceRow := { target := trace.target, historyGap := trace.historyGap }
      .ok { r with traces := r.traces.insert id row }
    | some row =>
      if row.target = trace.target then
        .ok { r with
          traces := r.traces.insert id { row with historyGap := row.historyGap || trace.historyGap } }
      else .ok r

def commandDetail (r : Repository) (id : String) : Option CommandDetail :=
  (r.commands.lookup id).map fun c =>
    { command := c
      trace := (r.traces.lookup id).map fun row =>
        { target := row.target, snapshot := row.snapshot, historyGap := row.historyGap } }

/-- One value of a page in the transaction of `SaveCommandEvidence`. -/
def saveValue (parse : String → Except String Unit) (source gateway manager : String) (gap : Bool)
    (r : Repository) (v : TrackedCommand) : Except String Repository :=
  match v.validate parse with
  | .error e => .error e
  | .ok () =>
    if v.managerInstanceID ≠ manager ∨ v.gatewayInstanceID ≠ gateway then
      .error "command evidence identity mismatch"
    else
      match r.traces.lookup v.commandID, r.commands.lookup v.commandID with
      | some row, some c =>
        if row.target.gatewayInstanceID ≠ gateway then .ok r
        -- The event of a command that another source of the same gateway owns.
        else if c.sourceID ≠ source then .ok r
        else if row.target.bootID ≠ v.bootID ∨ row.target.physicalPort ≠ v.portID ∨
            row.target.requestHash ≠ v.requestHash then
          .error "command evidence pinned target mismatch"
        else
          let row := if row.revision < v.revision then
            { row with
              snapshot := some v, revision := v.revision, historyGap := row.historyGap || gap }
            else row
          let key := (v.commandID, v.revision)
          .ok { r with
            traces := r.traces.insert v.commandID row
            events := if key ∈ r.events then r.events else r.events.insert key v }
      | _, _ => .ok r

/-- The arguments of `SaveCommandEvidence`, the manager apart. -/
structure Page where
  source : String
  gateway : String
  values : List TrackedCommand
  cursor : Option Nat
  gap : Bool
  deriving DecidableEq

def markSource (r : Repository) (source gateway : String) : Repository :=
  { r with
    traces := r.traces.mapValues fun id row =>
      if row.target.gatewayInstanceID = gateway ∧
          (r.commands.lookup id).any (·.sourceID == source) then
        { row with historyGap := true }
      else row }

def saveCommandEvidence (parse : String → Except String Unit) (manager : String) (r : Repository)
    (p : Page) : Except String Repository :=
  match p.values.foldlM (saveValue parse p.source p.gateway manager p.gap) r with
  | .error e => .error e
  | .ok r =>
    let r := if p.gap ∧ p.cursor.isSome then r.markSource p.source p.gateway else r
    match p.cursor with
    | none => .ok r
    | some cursor =>
      let key := (p.source, p.gateway)
      .ok { r with cursors := r.cursors.insert key (max ((r.cursors.lookup key).getD 0) cursor) }

end Repository

end RcdServer.Audit
