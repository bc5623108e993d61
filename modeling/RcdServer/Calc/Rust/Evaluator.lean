import RcdServer.Calc.Syntax
import RcdServer.Protocol.Frame

/-!
# Evaluator of the Rust engine

`evaluator.rs`: integers, booleans and floats are kept apart; integer operations are checked,
and the validity of the variables on the executed path is propagated with the value.
-/
namespace RcdServer.Calc.Rust

open Protocol (Value)
open FloatOps (lt le eq)

variable {F64 F32 : Type} [FloatOps F64 F32]

inductive EvalError where
  | missingVariable (name : String)
  | divisionByZero
  | typeError (message : String)
  deriving DecidableEq

abbrev Eval := Except EvalError

abbrev Variables (F64 : Type) := String → Option (EvalValue F64)

abbrev Validity := String → Option Bool

/-! ## Values -/

def fromModelValue : Value F32 F64 → EvalValue F64
  | .uint n => .int (Int64.ofNat n.toNat)
  | .bool b => .bool b
  | .float x => .float (FloatOps.widen x)
  | .double x => .float x

def asBool : EvalValue F64 → Bool
  | .bool b => b
  | .int n => n != 0
  | .float x => !eq x FloatOps.zero

def asF64 : EvalValue F64 → F64
  | .int n => FloatOps.ofInt64 n
  | .bool b => if b then FloatOps.one else FloatOps.zero
  | .float x => x

def isInvalidFloat : EvalValue F64 → Bool
  | .float x => FloatOps.isNaN x || FloatOps.isInf x
  | _ => false

def isFloat : EvalValue F64 → Bool
  | .float _ => true
  | _ => false

/-- `f64::fract`. -/
def fract (x : F64) : F64 := FloatOps.sub x (FloatOps.trunc x)

def asIntForIntegerOp : EvalValue F64 → Eval Int64
  | .int n => .ok n
  | .bool b => .ok (if b then 1 else 0)
  | .float x =>
    if !FloatOps.isFinite x then
      .error (.typeError ("浮点值 " ++ FloatOps.display x ++ " 不是有限整数，不能用于整数运算"))
    else if !eq (fract x) FloatOps.zero then
      .error (.typeError ("浮点值 " ++ FloatOps.display x ++ " 不是整数，不能用于整数运算"))
    else if lt x (FloatOps.ofInt64 Int64.minValue) || lt (FloatOps.ofInt64 Int64.maxValue) x then
      .error (.typeError ("浮点值 " ++ FloatOps.display x ++ " 超出 i64 范围，不能用于整数运算"))
    else .ok (FloatOps.toInt64 x)

/-! ## Checked integer arithmetic -/

/-- The result of an `i64::checked_*` operation whose exact result is `n`. -/
def checked (n : Int) : Option Int64 :=
  if Int64.minValue.toInt ≤ n ∧ n ≤ Int64.maxValue.toInt then some (Int64.ofInt n) else none

def checkedRem (a b : Int64) : Option Int64 :=
  if b = 0 then none
  else if a = Int64.minValue ∧ b = -1 then none
  else some (a % b)

def orOverflow (message : String) : Option Int64 → Eval (EvalValue F64)
  | some n => .ok (.int n)
  | none => .error (.typeError message)

/-- `(shift as u32).min(63)`: the conversion keeps the low 32 bits only. -/
def checkedShift (shift : Int64) : Eval Nat :=
  if shift < 0 then
    .error (.typeError ("移位位数 " ++ toString shift.toInt ++ " 不能为负数"))
  else .ok (min (shift.toInt.toNat % 2 ^ 32) 63)

/-! ## Operators -/

def evalUnary (op : UnaryOp) (val : EvalValue F64) : Eval (EvalValue F64) :=
  match op with
  | .neg =>
    match val with
    | .float x => .ok (.float (FloatOps.neg x))
    | _ => do
      let n ← asIntForIntegerOp val
      orOverflow "整数取反溢出" (checked (-n.toInt))
  | .not => .ok (.bool (!asBool val))
  | .bitNot => do
    let n ← asIntForIntegerOp val
    .ok (.int (~~~n))

/-- `eval_add`, `eval_sub` and `eval_mul`. -/
def evalArith (onFloats : F64 → F64 → F64) (onInts : Int → Int → Int) (message : String)
    (l r : EvalValue F64) : Eval (EvalValue F64) :=
  if isFloat l || isFloat r then .ok (.float (onFloats (asF64 l) (asF64 r)))
  else do
    let a ← asIntForIntegerOp l
    let b ← asIntForIntegerOp r
    orOverflow message (checked (onInts a.toInt b.toInt))

def evalDiv (l r : EvalValue F64) : Eval (EvalValue F64) :=
  if eq (asF64 r) FloatOps.zero then .error .divisionByZero
  else .ok (.float (FloatOps.div (asF64 l) (asF64 r)))

def evalMod (l r : EvalValue F64) : Eval (EvalValue F64) :=
  if eq (asF64 r) FloatOps.zero then .error .divisionByZero
  else if isFloat l || isFloat r then .ok (.float (FloatOps.rem (asF64 l) (asF64 r)))
  else do
    let a ← asIntForIntegerOp l
    let b ← asIntForIntegerOp r
    orOverflow "整数取模溢出" (checkedRem a b)

def evalBits (onInts : Int64 → Int64 → Int64) (l r : EvalValue F64) : Eval (EvalValue F64) := do
  let a ← asIntForIntegerOp l
  let b ← asIntForIntegerOp r
  .ok (.int (onInts a b))

/-- The shift count is converted and checked before the shifted value. -/
def evalShift (onInts : Int64 → Int64 → Int64) (l r : EvalValue F64) : Eval (EvalValue F64) := do
  let count ← asIntForIntegerOp r
  let shift ← checkedShift count
  let a ← asIntForIntegerOp l
  .ok (.int (onInts a (Int64.ofNat shift)))

def eqValues : EvalValue F64 → EvalValue F64 → Bool
  | .bool a, .bool b => a == b
  | .int a, .int b => a == b
  | .float a, .float b => le (FloatOps.abs (FloatOps.sub a b)) FloatOps.epsilon
  | l, r => le (FloatOps.abs (FloatOps.sub (asF64 l) (asF64 r))) FloatOps.epsilon

/-- The logical operators never get here: evaluation treats them itself. -/
def evalBinary (op : BinOp) (l r : EvalValue F64) : Eval (EvalValue F64) :=
  match op with
  | .add => evalArith FloatOps.add (· + ·) "整数加法溢出" l r
  | .sub => evalArith FloatOps.sub (· - ·) "整数减法溢出" l r
  | .mul => evalArith FloatOps.mul (· * ·) "整数乘法溢出" l r
  | .div => evalDiv l r
  | .mod => evalMod l r
  | .bitAnd => evalBits (· &&& ·) l r
  | .bitOr => evalBits (· ||| ·) l r
  | .bitXor => evalBits (· ^^^ ·) l r
  | .shiftLeft => evalShift (· <<< ·) l r
  | .shiftRight => evalShift (· >>> ·) l r
  | .and | .or => .error (.typeError "logical ops are handled before eval_binary")
  | .eq => .ok (.bool (eqValues l r))
  | .notEq => .ok (.bool (!eqValues l r))
  | .lt => .ok (.bool (lt (asF64 l) (asF64 r)))
  | .gt => .ok (.bool (lt (asF64 r) (asF64 l)))
  | .ltEq => .ok (.bool (le (asF64 l) (asF64 r)))
  | .gtEq => .ok (.bool (le (asF64 r) (asF64 l)))

/-! ## Evaluation -/

def evaluate (vars : Variables F64) : Expr F64 → Eval (EvalValue F64)
  | .literal v => .ok v
  | .var name =>
    match vars name with
    | some v => .ok v
    | none => .error (.missingVariable name)
  | .unary op operand => do
    let val ← evaluate vars operand
    evalUnary op val
  | .binary .and left right => do
    let l ← evaluate vars left
    if !asBool l then .ok (.bool false)
    else do
      let r ← evaluate vars right
      .ok (.bool (asBool r))
  | .binary .or left right => do
    let l ← evaluate vars left
    if asBool l then .ok (.bool true)
    else do
      let r ← evaluate vars right
      .ok (.bool (asBool r))
  | .binary op left right => do
    let l ← evaluate vars left
    let r ← evaluate vars right
    evalBinary op l r
  | .ite condition thenBranch elseBranch => do
    let c ← evaluate vars condition
    if asBool c then evaluate vars thenBranch
    else evaluate vars elseBranch

/-- Value and validity of an expression; only the executed path counts. -/
def evaluateWithValidity (vars : Variables F64) (validity : Validity) :
    Expr F64 → Eval (EvalValue F64 × Bool)
  | .literal v => .ok (v, true)
  | .var name =>
    match vars name with
    | some v => .ok (v, (validity name).getD false)
    | none => .error (.missingVariable name)
  | .unary op operand => do
    let (value, valid) ← evaluateWithValidity vars validity operand
    let value ← evalUnary op value
    .ok (value, valid)
  | .binary .and left right => do
    let (l, leftValid) ← evaluateWithValidity vars validity left
    if !asBool l then .ok (.bool false, leftValid)
    else do
      let (r, rightValid) ← evaluateWithValidity vars validity right
      .ok (.bool (asBool r), leftValid && rightValid)
  | .binary .or left right => do
    let (l, leftValid) ← evaluateWithValidity vars validity left
    if asBool l then .ok (.bool true, leftValid)
    else do
      let (r, rightValid) ← evaluateWithValidity vars validity right
      .ok (.bool (asBool r), leftValid && rightValid)
  | .binary op left right => do
    let (l, leftValid) ← evaluateWithValidity vars validity left
    let (r, rightValid) ← evaluateWithValidity vars validity right
    let value ← evalBinary op l r
    .ok (value, leftValid && rightValid)
  | .ite condition thenBranch elseBranch => do
    let (c, conditionValid) ← evaluateWithValidity vars validity condition
    let (value, branchValid) ←
      if asBool c then evaluateWithValidity vars validity thenBranch
      else evaluateWithValidity vars validity elseBranch
    .ok (value, conditionValid && branchValid)

end RcdServer.Calc.Rust
