import RcdServer.Lib.Run
import RcdServer.Process.Maintenance

/-!
# Process operations

`ExecuteSourceProcess`, `ResolveSourceProcess` and `SourceProcessOperation` of `process_control.go`
with the repository of `store/process_control.go`, as a state machine over the durable records, the
maintenance of the sources and the calls under way. A repository call takes effect as a whole or
fails without effect. The configuration lock is held between the steps of an admission, and between
the read and the gate of a query; an admitted call and a reconciliation go on without it. A crash
loses everything but the records.

The client's `Prepare` runs before the section of the lock that admits; that section repeats the
checks. Binding and request, and who asked, are the fixed part of a record.
-/
namespace RcdServer.Process

open Lib

/-! ## Records -/

inductive OperationState where
  | accepted
  | running
  | succeeded
  | failed
  | unknown
  deriving DecidableEq

structure Operation where
  state : OperationState
  errorCode : String := ""
  error : String := ""
  deriving DecidableEq

def Operation.terminal (o : Operation) : Bool := o.state == .succeeded || o.state == .failed

structure Record (F : Type) where
  fixed : F
  operation : Operation
  dispatched : Bool := false
  deriving DecidableEq

def interruptedBeforeDispatch : String := "interrupted_before_dispatch"

/-- `failProcessRecord` with an error's own code and text, or the fallback. -/
def failProcessRecord {F : Type} (r : Record F) (cause : Option (String × String))
    (fallback : String) : Record F :=
  let reason := cause.getD (fallback, "进程操作未派发")
  { r with operation := { r.operation with
      state := .failed, errorCode := reason.1, error := reason.2 } }

/-! ## The repository -/

/-- A source and a request. -/
abbrev Key := String × String

inductive RepositoryError where
  | busy
  | notFound
  | conflict
  deriving DecidableEq

section Repository

variable {F : Type} [DecidableEq F]

abbrev Records (F : Type) := Map Key (Record F)

def pendingKeys (records : Records F) : List Key :=
  (records.entries.filter fun e => !e.2.operation.terminal).map (·.1)

/-- The primary key, and one pending record for each source. -/
def createProcessOperation (records : Records F) (key : Key) (r : Record F) :
    Except RepositoryError (Records F) :=
  if key ∈ records then .error .busy
  else if !r.operation.terminal ∧ (pendingKeys records).any (·.1 == key.1) then .error .busy
  else .ok (records.insert key r)

/-- A terminal record stays, and the mark of a dispatch is not cleared. -/
def updateProcessOperation (records : Records F) (key : Key) (candidate : Record F) :
    Except RepositoryError (Records F × Record F) :=
  match records.lookup key with
  | none => .error .notFound
  | some current =>
    if current.fixed ≠ candidate.fixed then .error .conflict
    else if current.operation.terminal then .ok (records, current)
    else
      let candidate := { candidate with dispatched := candidate.dispatched || current.dispatched }
      .ok (records.insert key candidate, candidate)

end Repository

/-! ## The system -/

inductive Phase (F : Type) where
  /-- The intent is durable. -/
  | admitted (r : Record F)
  /-- The mark of the dispatch is durable. -/
  | dispatching (r : Record F)
  | awaiting (r : Record F)
  | reconciling (r : Record F)
  | saving (candidate : Record F)
  /-- The durable record is terminal. -/
  | releasing
  | ending
  deriving DecidableEq

structure Call (F : Type) where
  source : String
  request : String
  phase : Phase F
  deriving DecidableEq

def Call.key {F : Type} (c : Call F) : Key := (c.source, c.request)

/-- The holder of the configuration lock between two of its steps. -/
inductive Holder (F : Type) where
  | admitting (source request : String) (fixed : F)
  | sealing (source request : String) (fixed : F)
  | creating (source request : String) (fixed : F)
  | querying (source request : String) (r : Record F)
  deriving DecidableEq

structure Sys (F : Type) where
  records : Records F
  maintenance : Maintenance
  /-- The pending records that a start has not restored yet; `none` once the manager serves. -/
  restoring : Option (List Key)
  config : Option (Holder F)
  calls : Map Nat (Call F)
  next : Nat
  /-- The calls of the agent's `Action`, the latest first. -/
  actions : List Key

inductive Action (F : Type) where
  | restore (available : Bool)
  | serve
  | crash
  | execute (source request : String) (fixed : F)
  | resolve (source request : String) (fixed : F)
  /-- The section of the lock ends without effect. -/
  | refuse
  | begin
  | create (available : Bool)
  | createSealed (available : Bool)
  | preflightFailed (call : Nat) (cause : Option (String × String))
  | markDispatched (call : Nat) (available : Bool)
  | act (call : Nat)
  | result (call : Nat) (operation : Operation)
  | save (call : Nat) (available : Bool)
  | release (call : Nat)
  | endExecution (call : Nat)
  | query (source request : String)
  | tryReconcile
  | reconcile (call : Nat) (operation : Operation)
  | beginMutation (source : String)
  | endMutation (source : String) (lease : Nat)

namespace Sys

variable {F : Type} [DecidableEq F]

/-- The manager starts with an empty database. -/
def initial : Sys F := ⟨∅, .initial, some [], none, ∅, 0, []⟩

def locked (s : Sys F) : Bool := s.config.isSome || s.restoring.isSome

def setPhase (s : Sys F) (id : Nat) (c : Call F) (phase : Phase F) : Sys F :=
  { s with calls := s.calls.insert id { c with phase := phase } }

def addCall (s : Sys F) (c : Call F) : Sys F :=
  { s with calls := s.calls.insert s.next c, next := s.next + 1 }

/-- The section of `admitSourceProcess` up to the fence: the request is new, and the source is not
maintained. -/
def admission (s : Sys F) (source request : String) (holder : Holder F) : Option (Sys F) :=
  if s.locked || request == "" then none
  else if (source, request) ∈ s.records then some s
  else
    match s.maintenance.check source false with
    | .error _ => some s
    | .ok () => some { s with config := some holder }

def begin (s : Sys F) : Option (Sys F) :=
  match s.config with
  | some (.admitting source request fixed) =>
    match s.maintenance.beginProcess source request with
    | .error _ => some { s with config := none }
    | .ok m => some { s with maintenance := m, config := some (.creating source request fixed) }
  | _ => none

def create (s : Sys F) (available : Bool) : Option (Sys F) :=
  match s.config with
  | some (.creating source request fixed) =>
    let r : Record F := { fixed := fixed, operation := { state := .accepted } }
    let failed := { s with
      maintenance := (s.maintenance.releaseFence source request).endExecution source request
      config := none }
    if !available then some failed
    else
      match createProcessOperation s.records (source, request) r with
      | .error _ => some failed
      | .ok records =>
        some ({ s with records := records, config := none }.addCall ⟨source, request, .admitted r⟩)
  | _ => none

/-- A request that was never dispatched is sealed with a terminal record. -/
def createSealed (s : Sys F) (available : Bool) : Option (Sys F) :=
  match s.config with
  | some (.sealing source request fixed) =>
    let r : Record F :=
      { fixed := fixed
        operation := {
          state := .failed, errorCode := "unconfirmed_cancelled"
          error := "未找到管理端作业登记，已封存该编号；未向下级派发进程操作" } }
    if !available then some { s with config := none }
    else
      match createProcessOperation s.records (source, request) r with
      | .error _ => some { s with config := none }
      | .ok records => some { s with records := records, config := none }
  | _ => none

/-- `persistProcessRecord` up to the release of the fence; `next` is where a call goes on with a
record that is not terminal. -/
def persist (s : Sys F) (id : Nat) (c : Call F) (candidate : Record F) (available : Bool)
    (next : Record F → Phase F) : Sys F :=
  if !available then s.setPhase id c .ending
  else
    match updateProcessOperation s.records c.key candidate with
    | .error _ => s.setPhase id c .ending
    | .ok (records, saved) =>
      { s with records := records }.setPhase id c
        (if saved.operation.terminal then .releasing else next saved)

def query (s : Sys F) (source request : String) : Option (Sys F) :=
  if s.locked then none
  else
    match s.records.lookup (source, request) with
    | none => some s
    | some r =>
      if r.operation.terminal then some s
      else some { s with config := some (.querying source request r) }

def tryReconcile (s : Sys F) : Option (Sys F) :=
  match s.config with
  | some (.querying source request r) =>
    match s.maintenance.tryReconcile source request with
    | none => some { s with config := none }
    | some m =>
      some ({ s with maintenance := m, config := none }.addCall ⟨source, request, .reconciling r⟩)
  | _ => none

/-- What `reconcileProcess` saves: the agent is asked about dispatched records only. -/
def reconciled (r : Record F) (operation : Operation) : Record F :=
  if r.dispatched then { r with operation := operation }
  else failProcessRecord r none interruptedBeforeDispatch

/-- One round of `restoreProcessOperations`. No other call is under way, so the listed record is
the stored one. -/
def restore (s : Sys F) (available : Bool) : Option (Sys F) :=
  match s.restoring with
  | some (key :: rest) =>
    match s.records.lookup key, s.maintenance.restoreFence key.1 key.2 with
    | some r, .ok m =>
      let s := { s with maintenance := m, restoring := some rest }
      if r.dispatched then some s
      else if !available then none
      else
        match updateProcessOperation s.records key
            (failProcessRecord r none interruptedBeforeDispatch) with
        | .error _ => none
        | .ok (records, saved) =>
          let m := if saved.operation.terminal then m.releaseFence key.1 key.2 else m
          some { s with records := records, maintenance := m }
    | _, _ => none
  | _ => none

/-- A call in the given phase takes a step. -/
def withCall (s : Sys F) (id : Nat) (next : Call F → Option (Sys F)) : Option (Sys F) :=
  (s.calls.lookup id).bind next

end Sys

variable {F : Type} [DecidableEq F]

def step (s : Sys F) : Action F → Option (Sys F)
  | .restore available => s.restore available
  | .serve => if s.restoring = some [] then some { s with restoring := none } else none
  | .crash =>
    some { s with
      maintenance := .initial, restoring := some (pendingKeys s.records), config := none
      calls := ∅ }
  | .execute source request fixed => s.admission source request (.admitting source request fixed)
  | .resolve source request fixed => s.admission source request (.sealing source request fixed)
  | .refuse =>
    match s.config with
    | some (.admitting ..) | some (.sealing ..) => some { s with config := none }
    | _ => none
  | .begin => s.begin
  | .create available => s.create available
  | .createSealed available => s.createSealed available
  | .preflightFailed id cause =>
    s.withCall id fun c =>
      match c.phase with
      | .admitted r =>
        -- The lower does not know the manager's own codes.
        if cause.any (·.1 == interruptedBeforeDispatch) then none
        else some (s.setPhase id c (.saving (failProcessRecord r cause "precondition_failed")))
      | _ => none
  | .markDispatched id available =>
    s.withCall id fun c =>
      match c.phase with
      | .admitted r => some (s.persist id c { r with dispatched := true } available .dispatching)
      | _ => none
  | .act id =>
    s.withCall id fun c =>
      match c.phase with
      | .dispatching r =>
        some { s.setPhase id c (.awaiting r) with actions := c.key :: s.actions }
      | _ => none
  | .result id operation =>
    s.withCall id fun c =>
      match c.phase with
      | .awaiting r =>
        -- Nor does the agent.
        if operation.errorCode = interruptedBeforeDispatch then none
        else some (s.setPhase id c (.saving { r with operation := operation }))
      | _ => none
  | .save id available =>
    s.withCall id fun c =>
      match c.phase with
      | .saving candidate => some (s.persist id c candidate available fun _ => .ending)
      | _ => none
  | .release id =>
    s.withCall id fun c =>
      match c.phase with
      | .releasing =>
        some { s.setPhase id c .ending with
          maintenance := s.maintenance.releaseFence c.source c.request }
      | _ => none
  | .endExecution id =>
    s.withCall id fun c =>
      match c.phase with
      | .ending =>
        some { s with
          maintenance := s.maintenance.endExecution c.source c.request
          calls := s.calls.erase id }
      | _ => none
  | .query source request => s.query source request
  | .tryReconcile => s.tryReconcile
  | .reconcile id operation =>
    s.withCall id fun c =>
      match c.phase with
      | .reconciling r =>
        if operation.errorCode = interruptedBeforeDispatch then none
        else some (s.setPhase id c (.saving (Sys.reconciled r operation)))
      | _ => none
  | .beginMutation source =>
    match s.maintenance.beginMutation source with
    | .error _ => some s
    | .ok (m, _) => some { s with maintenance := m }
  | .endMutation source lease =>
    some { s with maintenance := s.maintenance.endMutation source lease }

end RcdServer.Process
