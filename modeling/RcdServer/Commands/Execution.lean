import RcdServer.Routes.Changes

/-!
# The execution of commands

The `commandExecutionService` of `command_execution.go` over the route table. Its mutex guards the
dispatch state of the commands; the table has its own lock, and enqueueing takes only that one.
`claimQueued` and `finishLocked` call the table more than once under the mutex: each is two steps
here, and the table may move in between.
-/
namespace RcdServer.Commands

open Lib Routes

variable {D : Type}

/-! ## Dispatch state -/

structure Terminal where
  state : CommandState
  status : Nat
  message : String
  uncertain : Bool
  deriving DecidableEq

/-- `done` is the channel of a waiting caller, with the one result it can hold; `queued` is the
dispatch that was frozen at acceptance. -/
structure Meta (D : Type) where
  tracked : Bool := false
  generation : Nat := 0
  epoch : Nat := 0
  baselineSequence : Nat := 0
  armed : Bool := false
  terminal : Option Terminal := none
  done : Option (Option Terminal) := none
  queued : Option D := none
  ready : Bool := false

/-- The mutex between two calls of the table. -/
inductive Holder where
  | claiming (id : String)
  /-- `notSent` is the cancellation of a queued command. -/
  | finishing (id : String) (state : CommandState) (cancelTail : Bool) (notSent : Bool)
  deriving DecidableEq

structure Sys (D : Type) where
  routes : Routes.Sys
  dispatch : Map String (Meta D)
  holder : Option Holder
  /-- The commands that `claimQueued` returned, the latest first. -/
  claimed : List String
  /-- The commands that `cancelQueued` reported as not sent. -/
  notSent : List String

inductive Action (D : Type) where
  /-- An operation of the table outside the service. -/
  | table (a : Routes.Action)
  | register (id : String) (state : Meta D)
  | readyQueued (id : String)
  | claimQueued (source port : String) (expected : Option String)
  | activate
  | markTracked (id : String)
  | resetLegacyBaseline (id : String) (sequence : Nat)
  | observe (id : String) (terminal : Terminal) (tracked : Bool) (epoch sequence : Nat)
  | arm (id : String)
  | finish (id : String) (state : CommandState)
  | cancelQueued (id : String)
  | commit (now : Time)

namespace Sys

def initial (config : Configuration) : Sys D := ⟨.initial config, ∅, none, [], []⟩

def commands (s : Sys D) : Reservations := s.routes.table.commands

def setMeta (s : Sys D) (id : String) (m : Meta D) : Sys D :=
  { s with dispatch := s.dispatch.insert id m }

def terminal (s : Sys D) (id : String) : Option Terminal :=
  (s.dispatch.lookup id).bind (·.terminal)

/-! ## Operations under the mutex -/

def register (s : Sys D) (id : String) (m : Meta D) : Sys D :=
  if (s.commands.pendingByID.lookup id).isSome then s.setMeta id m else s

def readyQueued (s : Sys D) (id : String) : Sys D :=
  match s.dispatch.lookup id with
  | none => s
  | some m => s.setMeta id { m with ready := true }

/-- The queue's head, when it may be dispatched. -/
def claimQueued (s : Sys D) (source port : String) (expected : Option String) : Sys D :=
  match s.commands.queueHead source port with
  | none => s
  | some head =>
    if expected.any (· != head.id) then s
    else
      match s.dispatch.lookup head.id with
      | none => s
      | some m =>
        if !m.ready || m.queued.isNone then s else { s with holder := some (.claiming head.id) }

/-- The second half of `claimQueued`. -/
def activate (s : Sys D) (id : String) : Sys D :=
  match s.commands.activateQueued id with
  | .error _ => { s with holder := none }
  | .ok (r, c) =>
    let s := { s with
      routes := { s.routes with
        table := { s.routes.table with commands := r }
        activated := s.routes.activated ++ [(c.key, id)] }
      holder := none
      claimed := id :: s.claimed }
    match s.dispatch.lookup id with
    | none => s
    | some m => s.setMeta id { m with queued := none }

def markTracked (s : Sys D) (id : String) : Sys D :=
  match s.dispatch.lookup id with
  | none => s
  | some m => s.setMeta id { m with tracked := true, terminal := none }

def resetLegacyBaseline (s : Sys D) (id : String) (sequence : Nat) : Sys D :=
  match s.dispatch.lookup id with
  | none => s
  | some m =>
    if m.tracked || m.armed then s
    else s.setMeta id { m with baselineSequence := sequence, terminal := none }

def observe (s : Sys D) (id : String) (terminal : Terminal) (tracked : Bool)
    (epoch sequence : Nat) : Sys D :=
  match s.dispatch.lookup id with
  | none => s
  | some m =>
    if m.tracked ≠ tracked ∨ m.terminal.isSome then s
    else if !tracked ∧ (epoch ≠ m.epoch ∨ sequence ≤ m.baselineSequence ∨
        (epoch / 2 ^ 32 ≠ 0 ∧ epoch / 2 ^ 32 ≠ m.generation)) then s
    else
      let m := { m with terminal := some terminal }
      -- A second result does not block the observer.
      let m := if m.armed then { m with done := m.done.map fun r => some (r.getD terminal) } else m
      s.setMeta id m

def arm (s : Sys D) (id : String) : Sys D :=
  match s.dispatch.lookup id with
  | none => s
  | some m => s.setMeta id { m with armed := true }

/-- `finishLocked` up to the commit. -/
def prepareFinish (s : Sys D) (id : String) (state : CommandState) (notSent : Bool) : Sys D :=
  if !terminalCommandState state then s
  else if (s.commands.pendingByID.lookup id).isNone then s
  else
    let unconfirmed := (s.terminal id).all (·.uncertain)
    let cancelTail := unconfirmed && state != .received && !s.commands.isQueued id
    { s with holder := some (.finishing id state cancelTail notSent) }

/-- Claim and cancellation use the same mutex. -/
def cancelQueued (s : Sys D) (id : String) : Sys D :=
  if s.commands.isQueued id then s.prepareFinish id .failed true else s

def forget (m : Map String (Meta D)) : List PendingCommand → Map String (Meta D)
  | [] => m
  | c :: rest => forget (m.erase c.id) rest

def commitFinish (s : Sys D) (id : String) (cancelTail notSent : Bool) (now : Time) : Sys D :=
  match s.routes.table.commitCommandFinish id cancelTail now with
  | .error _ => { s with holder := none }
  | .ok f =>
    { s with
      routes := { s.routes with table := f.table }
      dispatch := forget (s.dispatch.erase id) f.cancelled
      holder := none
      notSent := if notSent then id :: s.notSent else s.notSent }

end Sys

/-- Commands are activated by `claimQueued` only, and a persisted command is restored once. -/
def permitted (s : Sys D) : Routes.Action → Bool
  | .activateQueued _ => false
  | .restorePending c _ => !s.routes.issued.contains c.id
  | _ => true

def step (s : Sys D) : Action D → Option (Sys D)
  | .table a =>
    if permitted s a then (Routes.step s.routes a).map fun routes => { s with routes := routes }
    else none
  | .activate =>
    match s.holder with
    | some (.claiming id) => some (s.activate id)
    | _ => none
  | .commit now =>
    match s.holder with
    | some (.finishing id _ cancelTail notSent) =>
      if s.routes.committing.isSome then none
      else some (s.commitFinish id cancelTail notSent now)
    | _ => none
  | .register id m => if s.holder.isSome then none else some (s.register id m)
  | .readyQueued id => if s.holder.isSome then none else some (s.readyQueued id)
  | .claimQueued source port expected =>
    if s.holder.isSome then none else some (s.claimQueued source port expected)
  | .markTracked id => if s.holder.isSome then none else some (s.markTracked id)
  | .resetLegacyBaseline id sequence =>
    if s.holder.isSome then none else some (s.resetLegacyBaseline id sequence)
  | .observe id terminal tracked epoch sequence =>
    if s.holder.isSome then none else some (s.observe id terminal tracked epoch sequence)
  | .arm id => if s.holder.isSome then none else some (s.arm id)
  | .finish id state => if s.holder.isSome then none else some (s.prepareFinish id state false)
  | .cancelQueued id => if s.holder.isSome then none else some (s.cancelQueued id)

end RcdServer.Commands
