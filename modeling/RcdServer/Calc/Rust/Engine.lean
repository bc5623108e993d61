import Mathlib.Data.List.Basic
import RcdServer.Calc.Rust.Evaluator
import RcdServer.Calc.Rust.Expression
import RcdServer.Lib.Kahn

/-!
# The Rust calculation engine

`config.rs` and `engine.rs`. Rules that do not compile, repeat an output or depend on a cycle
are left out with a log entry; the others are evaluated in topological order, with a default
value for every failure, limits and a conversion to the output type.
-/
namespace RcdServer.Calc.Rust

open FloatOps (lt eq)
open Lib Lib.Text
open Protocol (Value)

variable {F64 F32 : Type}

/-! ## Rules -/

structure CalcRule (F64 : Type) where
  kksCalc : String
  dataType : String
  expression : String
  maxLimit : F64
  minLimit : F64
  defaultValue : F64
  deriving DecidableEq

inductive CalcDataType where
  | uint | bool | float | double
  deriving DecidableEq

def normalizeDataType (s : String) : Option CalcDataType :=
  let name := asciiLower s
  if name = "u32" ∨ name = "uint32" ∨ name = "uint" then some .uint
  else if name = "bool" ∨ name = "boolean" then some .bool
  else if name = "f32" ∨ name = "float" then some .float
  else if name = "f64" ∨ name = "double" then some .double
  else none

structure CompiledRule (F64 : Type) where
  kksCalc : String
  dataType : CalcDataType
  expression : String
  ast : Expr F64
  vars : List String
  maxLimit : F64
  minLimit : F64
  defaultValue : F64
  deriving DecidableEq

/-- Why a rule is skipped; the texts go to the log only. -/
inductive CompileError (F64 : Type) where
  | unknownDataType (dataType : String)
  | notFinite
  | minAboveMax
  | syntaxError (error : SyntaxError F64)
  | selfReference
  deriving DecidableEq

section

variable [FloatOps F64 F32]

/-- A decoded table with serde's defaults. -/
def CalcRule.ofRaw (item : RawRule F64) : CalcRule F64 where
  kksCalc := item.kksCalc
  dataType := item.dataType
  expression := item.expression
  maxLimit := item.maxLimit.getD FloatOps.largest
  minLimit := item.minLimit.getD (FloatOps.neg FloatOps.largest)
  defaultValue := item.defaultValue.getD FloatOps.zero

def compileRule (rule : CalcRule F64) : Except (CompileError F64) (CompiledRule F64) :=
  match normalizeDataType rule.dataType with
  | none => .error (.unknownDataType rule.dataType)
  | some dataType =>
    if !FloatOps.isFinite rule.maxLimit || !FloatOps.isFinite rule.minLimit ||
        !FloatOps.isFinite rule.defaultValue then
      .error .notFinite
    else if lt rule.maxLimit rule.minLimit then .error .minAboveMax
    else
      match tokenize rule.expression with
      | .error e => .error (.syntaxError e)
      | .ok tokens =>
        match parse tokens with
        | .error e => .error (.syntaxError e)
        | .ok ast =>
          let vars := extractVariables ast
          if rule.kksCalc ∈ vars then .error .selfReference
          else
            .ok
              { kksCalc := rule.kksCalc, dataType := dataType, expression := rule.expression,
                ast := ast, vars := vars, maxLimit := rule.maxLimit, minLimit := rule.minLimit,
                defaultValue := rule.defaultValue }

/-- What fails to compile or repeats an output is skipped. -/
def compileNext (compiled : List (CompiledRule F64)) (rule : CalcRule F64) :
    List (CompiledRule F64) :=
  match compileRule rule with
  | .error _ => compiled
  | .ok cr =>
    if compiled.any fun existing => existing.kksCalc == cr.kksCalc then compiled
    else compiled ++ [cr]

def compileRules (rules : List (CalcRule F64)) : List (CompiledRule F64) :=
  rules.foldl compileNext []

end

/-! ## Topological order -/

/-- `name_to_idx`, a map collected from the rules in their order. -/
def nameToIdx (rules : List (CompiledRule F64)) : String → Option Nat :=
  rules.zipIdx.foldl (fun table x => Function.update table x.1.kksCalc (some x.2)) fun _ => none

def dependencies (rules : List (CompiledRule F64)) (i : Nat) : List Nat :=
  match rules[i]? with
  | some rule => rule.vars.filterMap (nameToIdx rules)
  | none => []

/-- Rules on a cycle or behind one never get into the order and are dropped. -/
def topologicalSort (rules : List (CompiledRule F64)) : List (CompiledRule F64) :=
  (Kahn.sort rules.length (dependencies rules)).order.filterMap fun i => rules[i]?

structure CalcEngine (F64 : Type) where
  rules : List (CompiledRule F64)

section

variable [FloatOps F64 F32]

def CalcEngine.new (configRules : List (CalcRule F64)) : CalcEngine F64 :=
  ⟨topologicalSort (compileRules configRules)⟩

omit [FloatOps F64 F32] in
def CalcEngine.outputNames (engine : CalcEngine F64) : List String :=
  engine.rules.map (·.kksCalc)

omit [FloatOps F64 F32] in
/-- What the rules reference and no rule puts out, sorted and without repetitions. -/
def CalcEngine.requiredBaseVariables (engine : CalcEngine F64) : List String :=
  dedupRuns (sortTexts
    ((engine.rules.flatMap (·.vars)).filter fun name => decide (name ∉ engine.outputNames)))

/-! ## Evaluation -/

/-- Limits and conversion to the output type. -/
def typedValue (rule : CompiledRule F64) (safeValue : EvalValue F64) : Value F32 F64 :=
  let clamped := FloatOps.clamp (asF64 safeValue) rule.minLimit rule.maxLimit
  match rule.dataType with
  | .uint => .uint (FloatOps.toUInt32 (FloatOps.fmax clamped FloatOps.zero))
  | .bool =>
    match safeValue with
    | .bool b =>
      if eq clamped (asF64 safeValue) then .bool b else .bool (!eq clamped FloatOps.zero)
    | _ => .bool (!eq clamped FloatOps.zero)
  | .float =>
    if lt FloatOps.wideLargest32 clamped then .float (FloatOps.largest32 F64)
    else if lt clamped (FloatOps.neg FloatOps.wideLargest32) then
      .float (FloatOps.neg32 F64 (FloatOps.largest32 F64))
    else .float (FloatOps.narrow clamped)
  | .double => .double clamped

/-- One rule: a failure or a number that is not finite gives the default value, invalid. -/
def evaluateRule (rule : CompiledRule F64) (vars : Variables F64) (validity : Validity) :
    Value F32 F64 × Bool :=
  let (rawValue, valid) := match evaluateWithValidity vars validity rule.ast with
    | .ok r => r
    | .error _ => (.float rule.defaultValue, false)
  if isInvalidFloat rawValue then (typedValue rule (.float rule.defaultValue), false)
  else (typedValue rule rawValue, valid)

def runRules : List (CompiledRule F64) → Variables F64 → Validity →
    List (String × Value F32 F64 × Bool)
  | [], _, _ => []
  | rule :: rest, vars, validity =>
    let (value, valid) := evaluateRule rule vars validity
    (rule.kksCalc, value, valid) ::
      runRules rest (Function.update vars rule.kksCalc (some (fromModelValue value)))
        (Function.update validity rule.kksCalc (some valid))

def CalcEngine.runCycleWithQuality (engine : CalcEngine F64) (baseVariables : Variables F64)
    (baseValidity : Validity) : List (String × Value F32 F64 × Bool) :=
  runRules engine.rules baseVariables baseValidity

def CalcEngine.runCycle (engine : CalcEngine F64) (baseVariables : Variables F64) :
    List (String × Value F32 F64) :=
  (engine.runCycleWithQuality baseVariables fun name => (baseVariables name).map fun _ => true).map
    fun r => (r.1, r.2.1)

end

end RcdServer.Calc.Rust
