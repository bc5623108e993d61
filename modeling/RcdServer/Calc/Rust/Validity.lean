import RcdServer.Calc.Paths
import RcdServer.Calc.Rust.Evaluator

/-!
# Validity along the executed path

`evaluator.rs` evaluates in two ways: `evaluate` computes a value, `evaluateWithValidity` a
value and its validity. Both walk the same path, and the validity is that of the variables the
path looks up.
-/
namespace RcdServer.Calc.Rust

variable {F64 F32 : Type} [FloatOps F64 F32]

/-- The nodes of the evaluator; a logical operator that its left operand leaves open has the
truth of its right operand. -/
def nodes (vars : Variables F64) : Nodes F64 EvalError where
  lookup name :=
    match vars name with
    | some v => .ok v
    | none => .error (.missingVariable name)
  unary := evalUnary
  binary op l r :=
    match op with
    | .and | .or => .ok (.bool (asBool r))
    | op => evalBinary op l r
  truth := asBool

/-- The variables read on the executed path, up to the one an evaluation fails on. -/
def reads (vars : Variables F64) (e : Expr F64) : List String := ((nodes vars).run e).names

def allValid (validity : Validity) (names : List String) : Bool :=
  names.all fun name => (validity name).getD false

theorem allValid_append (validity : Validity) (names more : List String) :
    allValid validity (names ++ more) = (allValid validity names && allValid validity more) :=
  List.all_append

theorem allValid_iff (validity : Validity) (names : List String) :
    allValid validity names = true ↔ ∀ name ∈ names, validity name = some true := by
  rw [allValid, List.all_eq_true]
  refine forall₂_congr fun name _ => ?_
  cases validity name with
  | none => simp
  | some valid => simp

/-- The value of a walk with the validity of what it looked up. -/
def withValidity (validity : Validity) (t : Trace EvalError (EvalValue F64)) :
    Eval (EvalValue F64 × Bool) :=
  t.result.map fun v => (v, allValid validity t.names)

omit [FloatOps F64 F32] in
theorem withValidity_error {validity : Validity} {t : Trace EvalError (EvalValue F64)}
    {e : EvalError} (h : t.result = .error e) : withValidity validity t = .error e := by
  rw [withValidity, h]
  rfl

omit [FloatOps F64 F32] in
theorem withValidity_ok {validity : Validity} {t : Trace EvalError (EvalValue F64)}
    {v : EvalValue F64} (h : t.result = .ok v) :
    withValidity validity t = .ok (v, allValid validity t.names) := by
  rw [withValidity, h]
  rfl

omit [FloatOps F64 F32] in
/-- A walk in two stretches is valid when both are. -/
theorem withValidity_andThen (validity : Validity) (t : Trace EvalError (EvalValue F64))
    (next : EvalValue F64 → Trace EvalError (EvalValue F64)) :
    withValidity validity (t.andThen next) =
      (withValidity validity t).bind fun l =>
        (withValidity validity (next l.1)).map fun r => (r.1, l.2 && r.2) := by
  cases h : t.result with
  | error e => rw [Trace.andThen_error h, withValidity_error h, withValidity_error rfl]; rfl
  | ok l =>
    rw [Trace.andThen_ok h, withValidity_ok h]
    cases hr : (next l).result with
    | error e => simp only [withValidity, hr, Except.map, Except.bind]
    | ok r => simp only [withValidity, hr, Except.map, Except.bind, allValid_append]

/-! ## The two evaluators walk the same path -/

theorem evaluate_operator (vars : Variables F64) (op : BinOp) (left right : Expr F64) :
    evaluate vars (.binary op left right) =
      (evaluate vars left).bind fun l =>
        ((nodes vars).decided op l).elim
          ((evaluate vars right).bind fun r => (nodes vars).binary op l r) .ok := by
  cases op
  case and | or =>
    rw [evaluate]
    refine congrArg (Except.bind (evaluate vars left)) (funext fun l => ?_)
    cases hb : asBool l <;> simp only [Nodes.decided, nodes, hb] <;> rfl
  all_goals rw [evaluate] <;> first | rfl | exact fun h => BinOp.noConfusion h

theorem evaluate_eq (vars : Variables F64) (e : Expr F64) :
    evaluate vars e = ((nodes vars).run e).result := by
  induction e with
  | literal v => rfl
  | var name => rfl
  | unary op operand ih =>
    rw [evaluate, ih, Nodes.run, Trace.andThen_result]
    rfl
  | binary op left right ihl ihr =>
    rw [evaluate_operator, ihl, ihr, Nodes.run, Trace.andThen_result]
    refine congrArg (Except.bind _) (funext fun l => ?_)
    cases (nodes vars).decided op l with
    | some v => rfl
    | none =>
      dsimp only [Option.elim]
      rw [Trace.andThen_result]
  | ite condition thenBranch elseBranch ihc iht ihe =>
    rw [evaluate, ihc, Nodes.run, Trace.andThen_result]
    refine congrArg (Except.bind _) (funext fun c => ?_)
    have htruth : (nodes vars).truth c = asBool c := rfl
    rw [htruth]
    cases asBool c with
    | true => exact iht
    | false => exact ihe

theorem evaluateWithValidity_operator (vars : Variables F64) (validity : Validity) (op : BinOp)
    (left right : Expr F64) :
    evaluateWithValidity vars validity (.binary op left right) =
      (evaluateWithValidity vars validity left).bind fun l =>
        ((nodes vars).decided op l.1).elim
          ((evaluateWithValidity vars validity right).bind fun r =>
            ((nodes vars).binary op l.1 r.1).map fun v => (v, l.2 && r.2))
          fun v => .ok (v, l.2) := by
  cases op
  case and | or =>
    rw [evaluateWithValidity]
    refine congrArg (Except.bind (evaluateWithValidity vars validity left)) (funext fun l => ?_)
    cases hb : asBool l.1 <;> simp only [Nodes.decided, nodes, hb] <;> rfl
  all_goals
    rw [evaluateWithValidity]
    · refine congrArg (Except.bind _) (funext fun l => congrArg (Except.bind _) (funext fun r => ?_))
      simp only [nodes]
      cases evalBinary _ l.1 r.1 <;> rfl
    all_goals exact fun h => BinOp.noConfusion h

theorem evaluateWithValidity_eq (vars : Variables F64) (validity : Validity) (e : Expr F64) :
    evaluateWithValidity vars validity e = withValidity validity ((nodes vars).run e) := by
  induction e with
  | literal v => rfl
  | var name =>
    simp only [evaluateWithValidity, Nodes.run, withValidity, nodes]
    cases vars name with
    | none => rfl
    | some v => simp only [Except.map, allValid, List.all_cons, List.all_nil, Bool.and_true]
  | unary op operand ih =>
    rw [evaluateWithValidity, ih, Nodes.run, withValidity_andThen]
    refine congrArg (Except.bind _) (funext fun v => ?_)
    have hunary : (nodes vars).unary op v.1 = evalUnary op v.1 := rfl
    simp only [withValidity, hunary]
    cases evalUnary op v.1 with
    | error e => rfl
    | ok w => simp [Except.map, bind, Except.bind, allValid]
  | binary op left right ihl ihr =>
    rw [evaluateWithValidity_operator, ihl, ihr, Nodes.run, withValidity_andThen]
    refine congrArg (Except.bind _) (funext fun l => ?_)
    cases (nodes vars).decided op l.1 with
    | some v => simp [withValidity, Except.map, allValid]
    | none =>
      dsimp only [Option.elim]
      rw [withValidity_andThen]
      cases withValidity validity ((nodes vars).run right) with
      | error e => rfl
      | ok r =>
        cases h : (nodes vars).binary op l.1 r.1 with
        | error e => simp [withValidity, h, Except.map, Except.bind]
        | ok v => simp [withValidity, h, Except.map, Except.bind, allValid]
  | ite condition thenBranch elseBranch ihc iht ihe =>
    rw [evaluateWithValidity, ihc, Nodes.run, withValidity_andThen]
    refine congrArg (Except.bind _) (funext fun c => ?_)
    have htruth : (nodes vars).truth c.1 = asBool c.1 := rfl
    rw [htruth]
    cases hb : asBool c.1 with
    | true =>
      simp only [hb, if_true, ← iht]
      cases evaluateWithValidity vars validity thenBranch <;> rfl
    | false =>
      simp only [hb, Bool.false_eq_true, if_false, ← ihe]
      cases evaluateWithValidity vars validity elseBranch <;> rfl

/-! ## Validity is that of the path -/

theorem reads_congr {vars other : Variables F64} {e : Expr F64}
    (h : ∀ name ∈ reads vars e, other name = vars name) :
    (nodes other).run e = (nodes vars).run e := by
  have hlookup : ∀ name ∈ reads vars e, (nodes other).lookup name = (nodes vars).lookup name := by
    intro name hname
    simp only [nodes, h name hname]
  exact (nodes vars).run_congr e hlookup

/-- Both evaluations agree on the value and the error; the validity is true when all variables
read on the executed path are marked valid, and what is not read there has no influence. -/
theorem validity_path_based (vars : Variables F64) (validity : Validity) (e : Expr F64) :
    (evaluateWithValidity vars validity e).map Prod.fst = evaluate vars e ∧
    (∀ v valid, evaluateWithValidity vars validity e = .ok (v, valid) →
      (valid = true ↔ ∀ name ∈ reads vars e, validity name = some true)) ∧
    ∀ (vars' : Variables F64) (validity' : Validity),
      (∀ name ∈ reads vars e, vars' name = vars name ∧ validity' name = validity name) →
      evaluateWithValidity vars' validity' e = evaluateWithValidity vars validity e := by
  refine ⟨?_, ?_, ?_⟩
  · rw [evaluateWithValidity_eq, evaluate_eq, withValidity]
    cases ((nodes vars).run e).result <;> rfl
  · intro v valid h
    rw [evaluateWithValidity_eq] at h
    cases hresult : ((nodes vars).run e).result with
    | error err => rw [withValidity_error hresult] at h; cases h
    | ok w =>
      rw [withValidity_ok hresult] at h
      cases h
      exact allValid_iff validity (reads vars e)
  · intro vars' validity' h
    rw [evaluateWithValidity_eq, evaluateWithValidity_eq, reads_congr fun name hn => (h name hn).1]
    have hvalid : allValid validity' (reads vars e) = allValid validity (reads vars e) := by
      rw [Bool.eq_iff_iff, allValid_iff, allValid_iff]
      exact forall₂_congr fun name hname => by rw [(h name hname).2]
    exact congrArg (fun b => ((nodes vars).run e).result.map fun v => (v, b)) hvalid

/-- `IF(ready == 0, 4, sl3)` -/
def unusedBranch : Expr Int :=
  .ite (.binary .eq (.var "ready") (.literal (.int 0))) (.literal (.int 4)) (.var "sl3")

/-- `ready` is 0; `sl3` is missing. -/
def readyOnly : Variables Int := fun name => if name = "ready" then some (.int 0) else none

theorem validity_path_based_unusedBranch :
    evaluateWithValidity readyOnly (fun name => some (name == "ready")) unusedBranch =
      .ok (.int 4, true) ∧
    ∀ name ∈ reads readyOnly unusedBranch, some (name == "ready") = some true := by
  have hrun : evaluateWithValidity readyOnly (fun name => some (name == "ready")) unusedBranch =
      .ok (.int 4, true) := by decide
  exact ⟨hrun, ((validity_path_based readyOnly _ unusedBranch).2.1 _ _ hrun).mp rfl⟩

end RcdServer.Calc.Rust
