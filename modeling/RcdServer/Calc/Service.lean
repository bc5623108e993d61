import Mathlib.Data.List.Sort
import RcdServer.Calc.Incremental
import RcdServer.Lib.Run

/-!
# The calculation service of the manager

`calculationService` of `calculation_service.go` around one runner. Changes of inputs are marked
under a short lock; one worker takes the marks, reads the inputs without the lock, computes on the
runner it found at the start and publishes under the lock, unless the generation has moved on.
Between any two of these steps everything else may happen.
-/
namespace RcdServer.Calc.Go

open Lib

variable {F64 F32 : Type}

/-- The names that rules read and no rule computes. -/
def Plan.baseVariables (plan : Plan F64) : List String :=
  ((plan.rules.flatMap (·.vars)).filter fun name =>
    !(plan.rules.map (·.output)).contains name).dedup.insertionSort (· ≤ ·)

/-- A binary search in the sorted names. -/
def Plan.hasBaseVariable (plan : Plan F64) (name : String) : Bool :=
  plan.baseVariables.contains name

variable [FloatOps F64 F32]

/-- Only compiled plans are installed. -/
structure ValidPlan (F64 F32 : Type) [FloatOps F64 F32] where
  plan : Plan F64
  accepted : ∃ (config : Config F64) (definitions : Definitions),
    compile config definitions = .ok plan

def ValidPlan.ofConfig (config : Config F64) (definitions : Definitions) :
    Option (ValidPlan F64 F32) :=
  match h : compile config definitions with
  | .error _ => none
  | .ok plan => some ⟨plan, config, definitions, h⟩

/-- `installs` numbers the calls of `install` and stands for the identity of the installed plan and
its runner. No run exhausts the `uint64` of the generation. Texts and times that only the status
view shows are left out, and so are the retired results. -/
structure Service (F64 F32 : Type) [FloatOps F64 F32] where
  plan : Option (ValidPlan F64 F32)
  version : UInt64
  runner : Option (Runner F64 F32)
  results : String → Option (Result F64 F32)
  dirty : List String
  stateSeen : String → String
  stateEventPending : Bool
  full : Bool
  eventPending : Bool
  routeRevision : UInt64
  generation : Nat
  eventAt : Time
  installs : Nat

/-- `time.Second`, in nanoseconds. -/
def second : Int := 1000000000

/-- What the worker took at the start of an evaluation. -/
structure Running (F64 F32 : Type) [FloatOps F64 F32] where
  plan : ValidPlan F64 F32
  runner : Runner F64 F32
  version : UInt64
  route : UInt64
  generation : Nat
  full : Bool
  installs : Nat

namespace Service

def install (s : Service F64 F32) (plan : Option (ValidPlan F64 F32)) (version : UInt64) :
    Service F64 F32 :=
  { s with
    generation := s.generation + 1
    plan := plan
    version := version
    runner := plan.map fun p => newRunner p.plan
    routeRevision := if plan.isSome ∧ s.routeRevision = 0 then 1 else s.routeRevision
    results := fun _ => none
    dirty := []
    stateSeen := fun _ => ""
    stateEventPending := true
    full := plan.isSome
    eventPending := false
    installs := s.installs + 1 }

def new (plan : Option (ValidPlan F64 F32)) (version : UInt64) : Service F64 F32 :=
  { install ⟨none, 0, none, fun _ => none, [], fun _ => "", false, false, false, 0, 0, 0, 0⟩ plan
      version with stateEventPending := false }

def invalidate (s : Service F64 F32) (routeChanged : Bool) : Service F64 F32 :=
  match s.plan with
  | none => s
  | some _ =>
    { s with
      generation := s.generation + 1
      full := true
      routeRevision :=
        if routeChanged then if s.routeRevision + 1 = 0 then 1 else s.routeRevision + 1
        else s.routeRevision }

def markDirty (s : Service F64 F32) (plan : ValidPlan F64 F32) (name : String) : Service F64 F32 :=
  if plan.plan.hasBaseVariable name then { s with dirty := s.dirty.insert name } else s

def inputChanged (s : Service F64 F32) (name : String) : Service F64 F32 :=
  match s.plan with
  | none => s
  | some plan => s.markDirty plan name

/-- Called with the plan that the caller has read, here its number. -/
def stateChanged (s : Service F64 F32) (installs : Nat) (name signature : String) :
    Bool × Service F64 F32 :=
  match s.plan with
  | none => (false, s)
  | some plan =>
    if s.installs ≠ installs then (false, s)
    else if s.stateSeen name ≠ signature then
      (true, markDirty
        { s with
          stateSeen := Function.update s.stateSeen name signature
          stateEventPending := true } plan name)
    else (false, s)

/-- The marks are taken and cleared; the names come in no particular order. -/
def start (s : Service F64 F32) : Option (Running F64 F32 × List String × Service F64 F32) :=
  match s.plan, s.runner with
  | some plan, some runner =>
    if !s.full && s.dirty.isEmpty then none
    else
      some (⟨plan, runner, s.version, s.routeRevision, s.generation, s.full, s.installs⟩,
        if s.full then plan.plan.baseVariables else s.dirty,
        { s with full := false, dirty := [] })
  | _, _ => none

def resolveFailed (s : Service F64 F32) (run : Running F64 F32) : Service F64 F32 :=
  if s.generation = run.generation then { s with full := true } else s

def compute (run : Running F64 F32) (inputs : Inputs F64 F32) (now : Time) :
    Runner F64 F32 × List (Result F64 F32) :=
  if run.full then reset run.runner inputs ⟨now, run.version, run.route⟩
  else update run.runner inputs ⟨now, run.version, run.route⟩

def storeResults (results : String → Option (Result F64 F32)) (list : List (Result F64 F32)) :
    String → Option (Result F64 F32) :=
  list.foldl (fun results r => Function.update results r.nodeID (some r)) results

/-- The results of the evaluation, and what the call returns: the changed results and whether an
event is due. -/
def publish (s : Service F64 F32) (run : Running F64 F32) (changed results : List (Result F64 F32))
    (now : Time) : Service F64 F32 × List (Result F64 F32) × Bool :=
  if run.generation ≠ s.generation then (s, [], false)
  else
    let event := !changed.isEmpty && decide (now - s.eventAt ≥ second)
    ({ s with
        results := storeResults s.results results
        eventPending := if changed.isEmpty then s.eventPending else !event
        eventAt := if event then now else s.eventAt }, changed, event)

end Service

/-! ## Interleavings -/

inductive Worker (F64 F32 : Type) [FloatOps F64 F32] where
  | idle
  | resolving (run : Running F64 F32) (todo : List String) (inputs : Inputs F64 F32)
  | computed (run : Running F64 F32) (changed results : List (Result F64 F32))

/-- `values` is what an input resolves to, `unannounced` the names whose value has changed without
a call that marks them. -/
structure Situation (F64 F32 : Type) [FloatOps F64 F32] where
  service : Service F64 F32
  worker : Worker F64 F32
  values : String → Input F64 F32
  unannounced : List String

inductive Step (F64 F32 : Type) [FloatOps F64 F32] where
  | change (name : String) (value : Input F64 F32)
  | inputChanged (name : String)
  | stateChanged (installs : Nat) (name signature : String)
  | invalidate (routeChanged : Bool)
  | install (plan : Option (ValidPlan F64 F32)) (version : UInt64)
  | start
  | read (name : String)
  | resolveFailed
  | compute (now : Time)
  | publish (now : Time)

def Situation.init (plan : Option (ValidPlan F64 F32)) (version : UInt64)
    (values : String → Input F64 F32) : Situation F64 F32 :=
  ⟨.new plan version, .idle, values, []⟩

/-- A runner that has been replaced is computed on all the same, and then forgotten. -/
def step (s : Situation F64 F32) : Step F64 F32 → Option (Situation F64 F32)
  | .change name value =>
    some { s with
      values := Function.update s.values name value, unannounced := s.unannounced.insert name }
  | .inputChanged name =>
    some { s with
      service := s.service.inputChanged name
      unannounced := s.unannounced.filter (· ≠ name) }
  | .stateChanged installs name signature =>
    let answer := s.service.stateChanged installs name signature
    some { s with
      service := answer.2
      unannounced := if answer.1 then s.unannounced.filter (· ≠ name) else s.unannounced }
  | .invalidate routeChanged =>
    some { s with service := s.service.invalidate routeChanged, unannounced := [] }
  | .install plan version =>
    some { s with service := s.service.install plan version, unannounced := [] }
  | .start =>
    match s.worker with
    | .idle =>
      match s.service.start with
      | none => some s
      | some (run, names, service) =>
        some { s with service := service, worker := .resolving run names ∅ }
    | _ => none
  | .read name =>
    match s.worker with
    | .resolving run todo inputs =>
      if name ∈ todo then
        some { s with
          worker := .resolving run (todo.filter (· ≠ name)) (inputs.insert name (s.values name)) }
      else none
    | _ => none
  | .resolveFailed =>
    match s.worker with
    | .resolving run _ _ =>
      some { s with service := s.service.resolveFailed run, worker := .idle }
    | _ => none
  | .compute now =>
    match s.worker with
    | .resolving run [] inputs =>
      let out := Service.compute run inputs now
      some { s with
        service :=
          if run.installs = s.service.installs then { s.service with runner := some out.1 }
          else s.service
        worker := .computed run out.2 out.1.results }
    | _ => none
  | .publish now =>
    match s.worker with
    | .computed run changed results =>
      some { s with service := (s.service.publish run changed results now).1, worker := .idle }
    | _ => none

/-- All that a step can do. -/
inductive Moved (s : Situation F64 F32) : Step F64 F32 → Situation F64 F32 → Prop where
  | change (name : String) (value : Input F64 F32) :
    Moved s (.change name value)
      { s with
        values := Function.update s.values name value, unannounced := s.unannounced.insert name }
  | inputChanged (name : String) :
    Moved s (.inputChanged name)
      { s with
        service := s.service.inputChanged name, unannounced := s.unannounced.filter (· ≠ name) }
  | stateChanged (installs : Nat) (name signature : String) :
    Moved s (.stateChanged installs name signature)
      { s with
        service := (s.service.stateChanged installs name signature).2
        unannounced :=
          if (s.service.stateChanged installs name signature).1 then
            s.unannounced.filter (· ≠ name)
          else s.unannounced }
  | invalidate (routeChanged : Bool) :
    Moved s (.invalidate routeChanged)
      { s with service := s.service.invalidate routeChanged, unannounced := [] }
  | install (plan : Option (ValidPlan F64 F32)) (version : UInt64) :
    Moved s (.install plan version)
      { s with service := s.service.install plan version, unannounced := [] }
  | stayed : Moved s .start s
  | started {run : Running F64 F32} {names : List String} {service : Service F64 F32}
    (hworker : s.worker = .idle) (hstart : s.service.start = some (run, names, service)) :
    Moved s .start { s with service := service, worker := .resolving run names ∅ }
  | read {run : Running F64 F32} {todo : List String} {inputs : Inputs F64 F32} {name : String}
    (hworker : s.worker = .resolving run todo inputs) (hname : name ∈ todo) :
    Moved s (.read name)
      { s with
        worker := .resolving run (todo.filter (· ≠ name)) (inputs.insert name (s.values name)) }
  | resolveFailed {run : Running F64 F32} {todo : List String} {inputs : Inputs F64 F32}
    (hworker : s.worker = .resolving run todo inputs) :
    Moved s .resolveFailed { s with service := s.service.resolveFailed run, worker := .idle }
  | computed {run : Running F64 F32} {inputs : Inputs F64 F32}
    (hworker : s.worker = .resolving run [] inputs) (now : Time) :
    Moved s (.compute now)
      { s with
        service :=
          if run.installs = s.service.installs then
            { s.service with runner := some (Service.compute run inputs now).1 }
          else s.service
        worker := .computed run (Service.compute run inputs now).2
          (Service.compute run inputs now).1.results }
  | published {run : Running F64 F32} {changed results : List (Result F64 F32)}
    (hworker : s.worker = .computed run changed results) (now : Time) :
    Moved s (.publish now)
      { s with service := (s.service.publish run changed results now).1, worker := .idle }

theorem moved_of_step {s s' : Situation F64 F32} {a : Step F64 F32} (h : step s a = some s') :
    Moved s a s' := by
  cases a with
  | change name value =>
    cases h
    exact .change name value
  | inputChanged name =>
    cases h
    exact .inputChanged name
  | stateChanged installs name signature =>
    cases h
    exact .stateChanged installs name signature
  | invalidate routeChanged =>
    cases h
    exact .invalidate routeChanged
  | install plan version =>
    cases h
    exact .install plan version
  | start =>
    cases hworker : s.worker with
    | idle =>
      cases hstart : s.service.start with
      | none =>
        simp only [step, hworker, hstart, Option.some.injEq] at h
        exact h ▸ .stayed
      | some x =>
        simp only [step, hworker, hstart, Option.some.injEq] at h
        exact h ▸ .started hworker hstart
    | _ => simp [step, hworker] at h
  | read name =>
    cases hworker : s.worker with
    | resolving run todo inputs =>
      simp only [step, hworker] at h
      split at h
      · rename_i hname
        exact Option.some.inj h ▸ .read hworker hname
      · cases h
    | _ => simp [step, hworker] at h
  | resolveFailed =>
    cases hworker : s.worker with
    | resolving run todo inputs =>
      simp only [step, hworker, Option.some.injEq] at h
      exact h ▸ .resolveFailed hworker
    | _ => simp [step, hworker] at h
  | compute now =>
    cases hworker : s.worker with
    | resolving run todo inputs =>
      cases todo with
      | nil =>
        simp only [step, hworker, Option.some.injEq] at h
        exact h ▸ .computed hworker now
      | cons name todo => simp [step, hworker] at h
    | _ => simp [step, hworker] at h
  | publish now =>
    cases hworker : s.worker with
    | computed run changed results =>
      simp only [step, hworker, Option.some.injEq] at h
      exact h ▸ .published hworker now
    | _ => simp [step, hworker] at h

end RcdServer.Calc.Go
