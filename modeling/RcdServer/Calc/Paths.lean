import RcdServer.Calc.Syntax

/-!
# Executed paths

Both engines walk an expression in the same order: a logical operator stops at a left operand
that decides it, a conditional runs one branch, and a failure ends the walk. What the nodes
compute is a parameter, so that one walk serves the evaluators of both sides. A walk records
the variables it looks up.
-/
namespace RcdServer.Calc

variable {F64 ε α β : Type}

/-- The variables looked up so far and what came of it. -/
structure Trace (ε α : Type) where
  names : List String
  result : Except ε α

def Trace.andThen (t : Trace ε α) (next : α → Trace ε β) : Trace ε β :=
  match t.result with
  | .error e => ⟨t.names, .error e⟩
  | .ok a => ⟨t.names ++ (next a).names, (next a).result⟩

theorem Trace.andThen_ok {t : Trace ε α} {a : α} (h : t.result = .ok a) (next : α → Trace ε β) :
    t.andThen next = ⟨t.names ++ (next a).names, (next a).result⟩ := by
  rw [andThen, h]

theorem Trace.andThen_error {t : Trace ε α} {e : ε} (h : t.result = .error e)
    (next : α → Trace ε β) : t.andThen next = ⟨t.names, .error e⟩ := by
  rw [andThen, h]

theorem Trace.andThen_result (t : Trace ε α) (next : α → Trace ε β) :
    (t.andThen next).result = t.result.bind fun a => (next a).result := by
  cases h : t.result with
  | error e => rw [andThen_error h]; rfl
  | ok a => rw [andThen_ok h]; rfl

theorem Trace.names_subset (t : Trace ε α) (next : α → Trace ε β) :
    t.names ⊆ (t.andThen next).names := by
  unfold andThen
  cases t.result with
  | error e => exact fun _ h => h
  | ok a => exact List.subset_append_left _ _

/-- What an engine computes at the nodes of an expression. -/
structure Nodes (F64 ε : Type) where
  lookup : String → Except ε (EvalValue F64)
  unary : UnaryOp → EvalValue F64 → Except ε (EvalValue F64)
  binary : BinOp → EvalValue F64 → EvalValue F64 → Except ε (EvalValue F64)
  truth : EvalValue F64 → Bool

namespace Nodes

/-- The value of a logical operator that its left operand decides. -/
def decided (nodes : Nodes F64 ε) (op : BinOp) (left : EvalValue F64) : Option (EvalValue F64) :=
  match op with
  | .and => if nodes.truth left then none else some (.bool false)
  | .or => if nodes.truth left then some (.bool true) else none
  | _ => none

def run (nodes : Nodes F64 ε) : Expr F64 → Trace ε (EvalValue F64)
  | .literal v => ⟨[], .ok v⟩
  | .var name => ⟨[name], nodes.lookup name⟩
  | .unary op operand => (run nodes operand).andThen fun v => ⟨[], nodes.unary op v⟩
  | .binary op left right =>
    (run nodes left).andThen fun l =>
      match nodes.decided op l with
      | some v => ⟨[], .ok v⟩
      | none => (run nodes right).andThen fun r => ⟨[], nodes.binary op l r⟩
  | .ite condition thenBranch elseBranch =>
    (run nodes condition).andThen fun c =>
      if nodes.truth c then run nodes thenBranch else run nodes elseBranch

/-- The same nodes over other variables. -/
def withLookup (nodes : Nodes F64 ε) (lookup : String → Except ε (EvalValue F64)) : Nodes F64 ε :=
  { nodes with lookup := lookup }

theorem andThen_congr {t t' : Trace ε α} {next next' : α → Trace ε β} (ht : t' = t)
    (hnext : ∀ a, t.result = .ok a → next' a = next a) : t'.andThen next' = t.andThen next := by
  subst ht
  cases h : t'.result with
  | error e => rw [Trace.andThen_error h, Trace.andThen_error h]
  | ok a => rw [Trace.andThen_ok h, Trace.andThen_ok h, hnext a h]

theorem mem_andThen {t : Trace ε α} {next : α → Trace ε β} {a : α} (h : t.result = .ok a)
    {name : String} (hname : name ∈ (next a).names) : name ∈ (t.andThen next).names := by
  rw [Trace.andThen_ok h]
  exact List.mem_append_right _ hname

/-- A walk depends only on the variables it looks up. -/
theorem run_congr (nodes : Nodes F64 ε) {lookup : String → Except ε (EvalValue F64)}
    (e : Expr F64) (h : ∀ name ∈ (nodes.run e).names, lookup name = nodes.lookup name) :
    (nodes.withLookup lookup).run e = nodes.run e := by
  induction e with
  | literal v => rfl
  | var name =>
    have hname : lookup name = nodes.lookup name := h name (List.mem_singleton_self name)
    exact congrArg (Trace.mk [name]) hname
  | unary op operand ih =>
    have hoperand := ih fun name hname => h name (Trace.names_subset _ _ hname)
    exact andThen_congr hoperand fun _ _ => rfl
  | binary op left right ihl ihr =>
    have hleft := ihl fun name hname => h name (Trace.names_subset _ _ hname)
    refine andThen_congr hleft fun l hl => ?_
    have hdecided : (nodes.withLookup lookup).decided op l = nodes.decided op l := rfl
    cases hd : nodes.decided op l with
    | some v => simp only [hdecided, hd]
    | none =>
      simp only [hdecided, hd]
      refine andThen_congr (ihr fun name hname => ?_) fun _ _ => rfl
      apply h name
      apply mem_andThen hl
      simp only [hd]
      exact Trace.names_subset _ _ hname
  | ite condition thenBranch elseBranch ihc iht ihe =>
    have hcondition := ihc fun name hname => h name (Trace.names_subset _ _ hname)
    refine andThen_congr hcondition fun c hc => ?_
    have htruth : (nodes.withLookup lookup).truth c = nodes.truth c := rfl
    cases hb : nodes.truth c with
    | true =>
      simp only [htruth, hb, if_true]
      refine iht fun name hname => h name (mem_andThen hc ?_)
      simpa only [hb, if_true] using hname
    | false =>
      simp only [htruth, hb, Bool.false_eq_true, if_false]
      refine ihe fun name hname => h name (mem_andThen hc ?_)
      simpa only [hb, Bool.false_eq_true, if_false] using hname

end Nodes

end RcdServer.Calc
