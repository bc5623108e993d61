import RcdServer.Calc.Go.Plan

/-!
# Runner of the manager

The `Runner` of `engine.go` keeps the operands and the results of a plan. `reset` evaluates
all rules; `update` evaluates the rules that a breadth-first search finds reachable from the
changed inputs and leaves the other results as they are.
-/
namespace RcdServer.Calc.Go

open FloatOps (lt eq)

variable {F64 F32 : Type}

/-! ## Inputs and results -/

/-- The dynamic types a value of Go type `any` is tested for; `other` is every further one. -/
inductive DomainValue (F64 F32 : Type) where
  | bool (b : Bool)
  | uint32 (n : UInt32)
  | uint (n : UInt64)
  | uint64 (n : UInt64)
  | int (n : Int64)
  | int32 (n : Int32)
  | int64 (n : Int64)
  | float32 (x : F32)
  | float64 (x : F64)
  | other
  deriving DecidableEq

structure Input (F64 F32 : Type) where
  type : DataType
  value : DomainValue F64 F32
  statusCode : StatusCode
  sourceTimestamp : Time

/-- A `map[string]Input`; the entries stand in the order in which the map is ranged over. -/
abbrev Inputs (F64 F32 : Type) := AList fun _ : String => Input F64 F32

/-- What one evaluation of a rule determines, apart from when it took place. -/
structure Outcome (F64 F32 : Type) where
  value : DomainValue F64 F32
  statusCode : StatusCode
  communicationInputs : List String
  sourceTimestamp : Time
  error : String
  deriving DecidableEq

structure Result (F64 F32 : Type) extends Outcome F64 F32 where
  nodeID : String
  dataType : DataType
  expression : String
  evaluatedAt : Time
  dependencyCount : Nat
  configRevision : UInt64
  defaultRouteRevision : UInt64
  deriving DecidableEq

/-- The zero value `Result{}`; its data type is the empty text, for which no result is read. -/
def Result.zero : Result F64 F32 where
  value := .other
  statusCode := statusGood
  communicationInputs := []
  sourceTimestamp := 0
  error := ""
  nodeID := ""
  dataType := .string
  expression := ""
  evaluatedAt := 0
  dependencyCount := 0
  configRevision := 0
  defaultRouteRevision := 0

/-- When a rule was evaluated and under which revisions. -/
structure Stamp where
  now : Time
  configRevision : UInt64
  routeRevision : UInt64

section

variable [FloatOps F64 F32]

def domainValue : DomainValue F64 F32 → EvalValue F64
  | .bool b => .bool b
  | .uint32 n => .int (Int64.ofNat n.toNat)
  | .uint n => .int n.toInt64
  | .uint64 n => if n.toNat > 2 ^ 63 - 1 then .float (FloatOps.ofUInt64 n) else .int n.toInt64
  | .int n => .int n
  | .int32 n => .int n.toInt64
  | .int64 n => .int n
  | .float32 x => .float (FloatOps.widen x)
  | .float64 x => .float x
  | .other => .int 0

def typedZero : DataType → DomainValue F64 F32
  | .boolean => .bool false
  | .uint32 => .uint32 0
  | .float => .float32 (FloatOps.narrow (FloatOps.zero : F64))
  | .double => .float64 FloatOps.zero
  | .string => .other

/-- An input that lost its communication counts as the zero of its type and is named as such. -/
def inputOperand (name : String) (input : Input F64 F32) : Operand F64 :=
  if baseCode input.statusCode = statusBadNoCommunication then
    ⟨domainValue (typedZero input.type : DomainValue F64 F32), input.statusCode,
      input.sourceTimestamp, [name]⟩
  else ⟨domainValue input.value, input.statusCode, input.sourceTimestamp, []⟩

def convertOutput (value : EvalValue F64) (rule : Rule F64) : DomainValue F64 F32 :=
  let number := asFloat value
  let number := if lt number rule.minLimit then rule.minLimit else number
  let number := if lt rule.maxLimit number then rule.maxLimit else number
  match rule.dataType with
  | .uint32 =>
    if lt number FloatOps.zero then .uint32 0
    else if lt (FloatOps.ofInt64 0xFFFFFFFF) number then .uint32 0xFFFFFFFF
    else .uint32 (FloatOps.toUInt32 number)
  | .boolean => .bool (!eq number FloatOps.zero)
  | .float =>
    let number := if lt FloatOps.wideLargest32 number then FloatOps.wideLargest32 else number
    let number :=
      if lt number (FloatOps.neg FloatOps.wideLargest32) then FloatOps.neg FloatOps.wideLargest32
      else number
    .float32 (FloatOps.narrow number)
  | _ => .float64 number

/-- `reflect.DeepEqual` of two values: equal types and `==`. -/
def deepEqual : DomainValue F64 F32 → DomainValue F64 F32 → Bool
  | .bool a, .bool b => a == b
  | .uint32 a, .uint32 b => a == b
  | .uint a, .uint b => a == b
  | .uint64 a, .uint64 b => a == b
  | .int a, .int b => a == b
  | .int32 a, .int32 b => a == b
  | .int64 a, .int64 b => a == b
  | .float32 a, .float32 b => eq (FloatOps.widen a : F64) (FloatOps.widen b)
  | .float64 a, .float64 b => eq a b
  | .other, .other => true
  | _, _ => false

/-! ## One rule -/

def isNonFinite : EvalValue F64 → Bool
  | .float x => FloatOps.isNaN x || FloatOps.isInf x
  | _ => false

/-- A failed evaluation yields the configured default with a bad status; timestamp and
provenance are those of the inputs that were evaluated. -/
def outcome (rule : CompiledRule F64) (vars : Variables F64) : Outcome F64 F32 :=
  let (value, err) := eval vars rule.ast
  if err.isSome ∨ isNonFinite value.value then
    ⟨convertOutput (.float rule.defaultValue) rule.toRule, statusBadConfigurationError,
      value.communicationInputs, value.sourceTimestamp,
      err.getD "expression produced NaN or Infinity"⟩
  else
    ⟨convertOutput value.value rule.toRule, value.status, value.communicationInputs,
      value.sourceTimestamp, ""⟩

/-- The operand under which the rules behind this one see the result. -/
def Outcome.operand (o : Outcome F64 F32) : Operand F64 :=
  ⟨domainValue o.value, o.statusCode, o.sourceTimestamp, o.communicationInputs⟩

omit [FloatOps F64 F32] in
def result (rule : CompiledRule F64) (stamp : Stamp) (o : Outcome F64 F32) : Result F64 F32 where
  toOutcome := o
  nodeID := rule.output
  dataType := rule.dataType
  expression := rule.expression
  evaluatedAt := stamp.now
  dependencyCount := rule.vars.length
  configRevision := stamp.configRevision
  defaultRouteRevision := stamp.routeRevision

/-- Whether a new result differs from the previous one in something that is published. -/
def changed (previous new : Result F64 F32) : Bool :=
  previous.nodeID == "" || previous.statusCode != new.statusCode || previous.error != new.error ||
    previous.configRevision != new.configRevision ||
    previous.defaultRouteRevision != new.defaultRouteRevision ||
    previous.sourceTimestamp != new.sourceTimestamp || !deepEqual previous.value new.value ||
    previous.communicationInputs != new.communicationInputs

/-! ## The runner -/

structure Runner (F64 F32 : Type) where
  plan : Plan F64
  vars : Variables F64
  results : List (Result F64 F32)

omit [FloatOps F64 F32] in
def newRunner (plan : Plan F64) : Runner F64 F32 :=
  ⟨plan, fun _ => none, List.replicate plan.rules.length .zero⟩

/-- The loop of `evaluate` over the rules, each with its mark and its previous result: the
operands, the results and the changed ones among the new results. -/
def evaluateRules (stamp : Stamp) : List (CompiledRule F64 × Bool × Result F64 F32) →
    Variables F64 → Variables F64 × List (Result F64 F32) × List (Result F64 F32)
  | [], vars => (vars, [], [])
  | (rule, affected, previous) :: rest, vars =>
    if !affected then
      let (vars, results, changes) := evaluateRules stamp rest vars
      (vars, previous :: results, changes)
    else
      let o := outcome rule vars
      let new := result rule stamp o
      let (vars, results, changes) :=
        evaluateRules stamp rest (Function.update vars rule.output (some o.operand))
      (vars, new :: results, if changed previous new then new :: changes else changes)

omit [FloatOps F64 F32] in
/-- The rules of a plan with their marks and previous results. -/
def marked (r : Runner F64 F32) (affected : Nat → Bool) :
    List (CompiledRule F64 × Bool × Result F64 F32) :=
  List.zipWith (fun x previous => (x.1, affected x.2, previous)) r.plan.rules.zipIdx r.results

def evaluate (r : Runner F64 F32) (affected : Nat → Bool) (stamp : Stamp) :
    Runner F64 F32 × List (Result F64 F32) :=
  let (vars, results, changes) := evaluateRules stamp (marked r affected) r.vars
  ({ r with vars := vars, results := results }, changes)

/-- Storing the operands of all given inputs. -/
def writeInputs (vars : Variables F64) (inputs : Inputs F64 F32) : Variables F64 :=
  inputs.entries.foldl
    (fun vars x => Function.update vars x.1 (some (inputOperand x.1 x.2))) vars

def reset (r : Runner F64 F32) (inputs : Inputs F64 F32) (stamp : Stamp) :
    Runner F64 F32 × List (Result F64 F32) :=
  evaluate { r with vars := writeInputs (fun _ => none) inputs } (fun _ => true) stamp

/-! ## The search for affected rules -/

structure Marking where
  affected : Nat → Bool
  queue : List String
  visitedNames : List String

omit [FloatOps F64 F32] in
def markRule (plan : Plan F64) (m : Marking) (index : Nat) : Marking :=
  if m.affected index then m
  else
    { m with
      affected := Function.update m.affected index true
      queue := m.queue ++ (plan.rules[index]?.map fun rule => rule.output).toList }

omit [FloatOps F64 F32] in
def visitName (plan : Plan F64) (m : Marking) (name : String) (rest : List String) : Marking :=
  if name ∈ m.visitedNames then { m with queue := rest }
  else
    (plan.dependents name).foldl (markRule plan)
      { m with queue := rest, visitedNames := name :: m.visitedNames }

omit [FloatOps F64 F32] in
/-- The search, bounded; `markLoop_queue` shows that the bound of `markAffected` empties
the queue. -/
def markLoop (plan : Plan F64) : Nat → Marking → Marking
  | 0, m => m
  | fuel + 1, m =>
    match m.queue with
    | [] => m
    | name :: rest => markLoop plan fuel (visitName plan m name rest)

omit [FloatOps F64 F32] in
def markAffected (plan : Plan F64) (names : List String) : Nat → Bool :=
  (markLoop plan (names.length + plan.rules.length) ⟨fun _ => false, names, []⟩).affected

def update (r : Runner F64 F32) (inputs : Inputs F64 F32) (stamp : Stamp) :
    Runner F64 F32 × List (Result F64 F32) :=
  if inputs.entries = [] then (r, [])
  else
    evaluate { r with vars := writeInputs r.vars inputs } (markAffected r.plan inputs.keys) stamp

end

end RcdServer.Calc.Go
