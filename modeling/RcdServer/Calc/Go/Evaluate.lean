import RcdServer.Calc.Go.Expression

/-!
# Evaluator of the manager

`evaluate.go`: a value travels with its OPC UA status, its source timestamp and the names of
the inputs whose communication failed. A failed evaluation still returns what it knows of
these.
-/
namespace RcdServer.Calc.Go

open FloatOps (lt le eq)
open Lib.Text (textLt)

/-! ## Status codes -/

abbrev StatusCode := UInt32

def statusGood : StatusCode := 0x00000000
def statusBadNoCommunication : StatusCode := 0x80310000
def statusBadWaitingInitialData : StatusCode := 0x80320000
def statusBadConfigurationError : StatusCode := 0x80890000
def statusBadOutOfService : StatusCode := 0x808D0000

def isGood (s : StatusCode) : Bool := s &&& 0xC0000000 == 0
def isUncertain (s : StatusCode) : Bool := s &&& 0xC0000000 == 0x40000000
def isBad (s : StatusCode) : Bool := s &&& 0xC0000000 == 0x80000000
def baseCode (s : StatusCode) : StatusCode := s &&& 0xFFFF0000

def statusPriority (status : StatusCode) : Nat :=
  if status = statusGood then 0
  else if isUncertain status then 1
  else if baseCode status = statusBadWaitingInitialData then 2
  else if baseCode status = statusBadNoCommunication then 3
  else if baseCode status = statusBadConfigurationError then 5
  else if baseCode status = statusBadOutOfService then 6
  else if isBad status then 4
  else 1

def worseStatus (left right : StatusCode) : StatusCode :=
  if statusPriority right > statusPriority left then right else left

/-- `time.Time`, counted from its zero value. -/
abbrev Time := Int

def laterTime (left right : Time) : Time := if right > left then right else left

variable {F64 F32 : Type}

/-! ## Values -/

section

variable [FloatOps F64 F32]

def asBool : EvalValue F64 → Bool
  | .bool b => b
  | .int n => n != 0
  | .float x => !eq x FloatOps.zero

def asFloat : EvalValue F64 → F64
  | .bool b => if b then FloatOps.one else FloatOps.zero
  | .int n => FloatOps.ofInt64 n
  | .float x => x

def asInteger : EvalValue F64 → Except String Int64
  | .int n => .ok n
  | .bool b => .ok (if b then 1 else 0)
  | .float x =>
    if FloatOps.isNaN x || FloatOps.isInf x || !eq (FloatOps.trunc x) x ||
        lt x (FloatOps.ofInt64 Int64.minValue) || lt (FloatOps.ofInt64 Int64.maxValue) x then
      .error ("floating value " ++ FloatOps.verb x ++ " is not an i64 integer")
    else .ok (FloatOps.toInt64 x)

def isFloat : EvalValue F64 → Bool
  | .float _ => true
  | _ => false

/-! ## Checked integer arithmetic -/

def checkedAdd (a b : Int64) : Option Int64 :=
  if (b > 0 ∧ a > Int64.maxValue - b) ∨ (b < 0 ∧ a < Int64.minValue - b) then none
  else some (a + b)

def checkedSub (a b : Int64) : Option Int64 :=
  if (b < 0 ∧ a > Int64.maxValue + b) ∨ (b > 0 ∧ a < Int64.minValue + b) then none
  else some (a - b)

/-- The product wraps; dividing it by one factor shows whether it did. -/
def checkedMul (a b : Int64) : Option Int64 :=
  if a = 0 ∨ b = 0 then some 0
  else if (a = -1 ∧ b = Int64.minValue) ∨ (b = -1 ∧ a = Int64.minValue) then none
  else if a * b / b = a then some (a * b)
  else none

/-! ## Operators -/

def orOverflow (message : String) : Option Int64 → Except String (EvalValue F64)
  | some n => .ok (.int n)
  | none => .error message

def evalUnary (operator : UnaryOp) (value : EvalValue F64) : Except String (EvalValue F64) :=
  match operator with
  | .not => .ok (.bool (!asBool value))
  | .bitNot => do
    let integer ← asInteger value
    .ok (.int (~~~integer))
  | .neg =>
    match value with
    | .float x => .ok (.float (FloatOps.neg x))
    | _ => do
      let integer ← asInteger value
      if integer = Int64.minValue then .error "integer negation overflow"
      else .ok (.int (-integer))

def equalValues : EvalValue F64 → EvalValue F64 → Bool
  | .bool a, .bool b => a == b
  | .int a, .int b => a == b
  | left, right =>
    le (FloatOps.abs (FloatOps.sub (asFloat left) (asFloat right))) FloatOps.epsilon

/-- The case of `+`, `-` and `*`. -/
def evalArith (onFloats : F64 → F64 → F64) (onInts : Int64 → Int64 → Option Int64)
    (message : String) (left right : EvalValue F64) : Except String (EvalValue F64) :=
  if isFloat left || isFloat right then .ok (.float (onFloats (asFloat left) (asFloat right)))
  else do
    let li ← asInteger left
    let ri ← asInteger right
    orOverflow message (onInts li ri)

def evalMod (left right : EvalValue F64) : Except String (EvalValue F64) :=
  if eq (asFloat right) FloatOps.zero then .error "division by zero"
  else if isFloat left || isFloat right then
    .ok (.float (FloatOps.rem (asFloat left) (asFloat right)))
  else do
    let li ← asInteger left
    let ri ← asInteger right
    if li = Int64.minValue ∧ ri = -1 then .error "integer remainder overflow"
    else .ok (.int (li % ri))

/-- The case of the bit operators, with the operands already integers. -/
def evalBits (onInts : Int64 → Int64 → Except String Int64) (left right : EvalValue F64) :
    Except String (EvalValue F64) := do
  let li ← asInteger left
  let ri ← asInteger right
  let value ← onInts li ri
  .ok (.int value)

def evalShift (onInts : Int64 → Int64 → Int64) (li ri : Int64) : Except String Int64 :=
  if ri < 0 then .error ("shift " ++ toString ri.toInt ++ " cannot be negative")
  else .ok (onInts li (if ri > 63 then 63 else ri))

def evalBinary (operator : BinOp) (left right : EvalValue F64) : Except String (EvalValue F64) :=
  match operator with
  | .and | .or => .ok (.bool (asBool right))
  | .eq => .ok (.bool (equalValues left right))
  | .notEq => .ok (.bool (!equalValues left right))
  | .lt => .ok (.bool (lt (asFloat left) (asFloat right)))
  | .gt => .ok (.bool (lt (asFloat right) (asFloat left)))
  | .ltEq => .ok (.bool (le (asFloat left) (asFloat right)))
  | .gtEq => .ok (.bool (le (asFloat right) (asFloat left)))
  | .div =>
    if eq (asFloat right) FloatOps.zero then .error "division by zero"
    else .ok (.float (FloatOps.div (asFloat left) (asFloat right)))
  | .mod => evalMod left right
  | .add => evalArith FloatOps.add checkedAdd "integer addition overflow" left right
  | .sub => evalArith FloatOps.sub checkedSub "integer subtraction overflow" left right
  | .mul => evalArith FloatOps.mul checkedMul "integer multiplication overflow" left right
  | .bitAnd => evalBits (fun li ri => .ok (li &&& ri)) left right
  | .bitOr => evalBits (fun li ri => .ok (li ||| ri)) left right
  | .bitXor => evalBits (fun li ri => .ok (li ^^^ ri)) left right
  | .shiftLeft => evalBits (evalShift (· <<< ·)) left right
  | .shiftRight => evalBits (evalShift (· >>> ·)) left right

end

/-! ## Evaluation -/

structure Operand (F64 : Type) where
  value : EvalValue F64
  status : StatusCode
  sourceTimestamp : Time
  communicationInputs : List String
  deriving DecidableEq

/-- The zero value `operand{}`. -/
def Operand.zero : Operand F64 := ⟨.int 0, statusGood, 0, []⟩

def mergeSortedUniqueStrings : List String → List String → List String
  | [], right => right
  | left, [] => left
  | a :: left, b :: right =>
    if textLt a b then a :: mergeSortedUniqueStrings left (b :: right)
    else if textLt b a then b :: mergeSortedUniqueStrings (a :: left) right
    else a :: mergeSortedUniqueStrings left right
  termination_by left right => left.length + right.length

/-- Status, timestamp and provenance of two operands together. -/
def Operand.combine (left right : Operand F64) (value : EvalValue F64) : Operand F64 where
  value := value
  status := worseStatus left.status right.status
  sourceTimestamp := laterTime left.sourceTimestamp right.sourceTimestamp
  communicationInputs :=
    mergeSortedUniqueStrings left.communicationInputs right.communicationInputs

abbrev Variables (F64 : Type) := String → Option (Operand F64)

variable [FloatOps F64 F32]

/-- The operand of an expression and the text of its error, if it has one. -/
def eval (vars : Variables F64) : Expr F64 → Operand F64 × Option String
  | .literal v => (⟨v, statusGood, 0, []⟩, none)
  | .var name =>
    match vars name with
    | some operand => (operand, none)
    | none => (.zero, some ("variable \"" ++ name ++ "\" is missing"))
  | .unary op operand =>
    match eval vars operand with
    | (_, some err) => (.zero, some err)
    | (value, none) =>
      match evalUnary op value.value with
      | .ok v => ({ value with value := v }, none)
      | .error err => ({ value with value := .int 0 }, some err)
  | .binary op leftExpr rightExpr =>
    match eval vars leftExpr with
    | (_, some err) => (.zero, some err)
    | (left, none) =>
      if op = .and ∧ !asBool left.value then ({ left with value := .bool false }, none)
      else if op = .or ∧ asBool left.value then ({ left with value := .bool true }, none)
      else
        match eval vars rightExpr with
        | (_, some err) => (.zero, some err)
        | (right, none) =>
          match evalBinary op left.value right.value with
          | .ok v => (left.combine right v, none)
          | .error err => (left.combine right (.int 0), some err)
  | .ite conditionExpr thenBranch elseBranch =>
    match eval vars conditionExpr with
    | (condition, some err) => (condition, some err)
    | (condition, none) =>
      let (selected, err) :=
        if asBool condition.value then eval vars thenBranch else eval vars elseBranch
      (condition.combine selected selected.value, err)

end RcdServer.Calc.Go
