import RcdServer.Calc.Paths
import RcdServer.Calc.Go.Runner

/-!
# Timestamp and provenance of a failed evaluation

A failed evaluation is replaced by the configured default, but its result keeps timestamp and
provenance of the operand that `eval` returns with the error. The conditional and an operator
that fails itself merge what they evaluated; a unary or binary operator whose operand failed
returns an empty operand.
-/
namespace RcdServer.Calc.Go

open Lib.Text (textLt textLt_trans eq_of_not_textLt)

/-! ## Merging sorted names -/

def Ascending (names : List String) : Prop := names.Pairwise fun a b => textLt a b = true

theorem mem_mergeSortedUniqueStrings {left right : List String} {name : String} :
    name ∈ mergeSortedUniqueStrings left right ↔ name ∈ left ∨ name ∈ right := by
  fun_induction mergeSortedUniqueStrings left right with
  | case1 right => simp
  | case2 left hleft => simp
  | case3 a left b right hlt ih =>
    rw [List.mem_cons, ih, List.mem_cons, List.mem_cons, or_assoc]
  | case4 a left b right hlt hlt' ih =>
    simp only [List.mem_cons] at ih ⊢
    rw [ih]
    tauto
  | case5 a left b right hlt hlt' ih =>
    have hab : a = b := eq_of_not_textLt hlt hlt'
    simp only [List.mem_cons, ih, hab]
    tauto

theorem ascending_merge {left right : List String} (hleft : Ascending left)
    (hright : Ascending right) : Ascending (mergeSortedUniqueStrings left right) := by
  fun_induction mergeSortedUniqueStrings left right with
  | case1 right => exact hright
  | case2 left hne => exact hleft
  | case3 a left b right hlt ih =>
    obtain ⟨ha, htail⟩ := List.pairwise_cons.mp hleft
    obtain ⟨hb, _⟩ := List.pairwise_cons.mp hright
    refine List.pairwise_cons.mpr ⟨fun name hname => ?_, ih htail hright⟩
    rcases mem_mergeSortedUniqueStrings.mp hname with h | h
    · exact ha name h
    · rcases List.mem_cons.mp h with rfl | h
      · exact hlt
      · exact textLt_trans hlt (hb name h)
  | case4 a left b right hlt hlt' ih =>
    obtain ⟨ha, _⟩ := List.pairwise_cons.mp hleft
    obtain ⟨hb, htail⟩ := List.pairwise_cons.mp hright
    refine List.pairwise_cons.mpr ⟨fun name hname => ?_, ih hleft htail⟩
    rcases mem_mergeSortedUniqueStrings.mp hname with h | h
    · rcases List.mem_cons.mp h with rfl | h
      · exact hlt'
      · exact textLt_trans hlt' (ha name h)
    · exact hb name h
  | case5 a left b right hlt hlt' ih =>
    have hab : a = b := eq_of_not_textLt hlt hlt'
    obtain ⟨ha, hleft⟩ := List.pairwise_cons.mp hleft
    obtain ⟨hb, hright⟩ := List.pairwise_cons.mp hright
    refine List.pairwise_cons.mpr ⟨fun name hname => ?_, ih hleft hright⟩
    rcases mem_mergeSortedUniqueStrings.mp hname with h | h
    · exact ha name h
    · exact hab ▸ hb name h

theorem left_le_laterTime (left right : Time) : left ≤ laterTime left right := by
  unfold laterTime
  split_ifs with h
  · exact le_of_lt h
  · exact le_refl left

theorem right_le_laterTime (left right : Time) : right ≤ laterTime left right := by
  unfold laterTime
  split_ifs with h
  · exact le_refl right
  · exact not_lt.mp h

theorem laterTime_eq (left right : Time) :
    laterTime left right = left ∨ laterTime left right = right := by
  unfold laterTime
  split_ifs with h <;> simp

variable {F64 F32 : Type}

/-! ## What a list of operands says together -/

/-- The latest timestamp of the operands, the zero time if there are none, and the sorted union
of their communication inputs. -/
structure Merges (time : Time) (inputs : List String) (operands : List (Operand F64)) : Prop where
  latest : ∀ o ∈ operands, o.sourceTimestamp ≤ time
  attained : (operands = [] ∧ time = 0) ∨ ∃ o ∈ operands, o.sourceTimestamp = time
  sorted : Ascending inputs
  union : ∀ name, name ∈ inputs ↔ ∃ o ∈ operands, name ∈ o.communicationInputs

theorem Merges.single {o : Operand F64} (h : Ascending o.communicationInputs) :
    Merges o.sourceTimestamp o.communicationInputs [o] where
  latest := by simp
  attained := .inr ⟨o, List.mem_singleton_self o, rfl⟩
  sorted := h
  union := by simp

theorem Merges.zero : Merges 0 [] [(.zero : Operand F64)] := by
  have hnil : Ascending (Operand.zero : Operand F64).communicationInputs := List.Pairwise.nil
  exact Merges.single hnil

theorem Merges.append {t t' : Time} {inputs inputs' : List String}
    {left right : List (Operand F64)} (hleft : Merges t inputs left) (hne : left ≠ [])
    (hright : Merges t' inputs' right) (hne' : right ≠ []) :
    Merges (laterTime t t') (mergeSortedUniqueStrings inputs inputs') (left ++ right) where
  latest := by
    intro o ho
    rcases List.mem_append.mp ho with ho | ho
    · exact (hleft.latest o ho).trans (left_le_laterTime t t')
    · exact (hright.latest o ho).trans (right_le_laterTime t t')
  attained := by
    obtain ⟨l, hl, hlt⟩ := hleft.attained.resolve_left fun h => hne h.1
    obtain ⟨r, hr, hrt⟩ := hright.attained.resolve_left fun h => hne' h.1
    rcases laterTime_eq t t' with h | h
    · exact .inr ⟨l, List.mem_append_left _ hl, hlt.trans h.symm⟩
    · exact .inr ⟨r, List.mem_append_right _ hr, hrt.trans h.symm⟩
  sorted := ascending_merge hleft.sorted hright.sorted
  union := by
    intro name
    rw [mem_mergeSortedUniqueStrings, hleft.union, hright.union]
    constructor
    · rintro (⟨o, ho, h⟩ | ⟨o, ho, h⟩)
      · exact ⟨o, List.mem_append_left _ ho, h⟩
      · exact ⟨o, List.mem_append_right _ ho, h⟩
    · rintro ⟨o, ho, h⟩
      rcases List.mem_append.mp ho with ho | ho
      · exact .inl ⟨o, ho, h⟩
      · exact .inr ⟨o, ho, h⟩

/-! ## The executed path -/

section

variable [FloatOps F64 F32]

/-- The values of the evaluator, without what travels beside them. -/
def nodes (vars : Variables F64) : Nodes F64 String where
  lookup name :=
    match vars name with
    | some operand => .ok operand.value
    | none => .error ("variable \"" ++ name ++ "\" is missing")
  unary := evalUnary
  binary := evalBinary
  truth := asBool

def valueOf (vars : Variables F64) (e : Expr F64) : Except String (EvalValue F64) :=
  ((nodes vars).run e).result

/-- The variables evaluated on the executed path, up to a failure. -/
def evaluated (vars : Variables F64) (e : Expr F64) : List (Operand F64) :=
  ((nodes vars).run e).names.filterMap vars

/-- What `eval` merges: the operands of leaves, empty for a literal, a missing variable and an
operator whose operand failed. -/
def merged (vars : Variables F64) : Expr F64 → List (Operand F64)
  | .literal _ => [.zero]
  | .var name => [(vars name).getD .zero]
  | .unary _ operand =>
    match valueOf vars operand with
    | .error _ => [.zero]
    | .ok _ => merged vars operand
  | .binary op left right =>
    match valueOf vars left with
    | .error _ => [.zero]
    | .ok l =>
      match (nodes vars).decided op l with
      | some _ => merged vars left
      | none =>
        match valueOf vars right with
        | .error _ => [.zero]
        | .ok _ => merged vars left ++ merged vars right
  | .ite condition thenBranch elseBranch =>
    match valueOf vars condition with
    | .error _ => merged vars condition
    | .ok c =>
      merged vars condition ++
        if asBool c then merged vars thenBranch else merged vars elseBranch

/-- What an operator forgets when one of its operands failed. -/
def lost (vars : Variables F64) : Expr F64 → List (Operand F64)
  | .literal _ | .var _ => []
  | .unary _ operand =>
    match valueOf vars operand with
    | .error _ => evaluated vars operand
    | .ok _ => []
  | .binary op left right =>
    match valueOf vars left with
    | .error _ => evaluated vars left
    | .ok l =>
      match (nodes vars).decided op l with
      | some _ => []
      | none =>
        match valueOf vars right with
        | .error _ => evaluated vars left ++ evaluated vars right
        | .ok _ => []
  | .ite condition thenBranch elseBranch =>
    match valueOf vars condition with
    | .error _ => lost vars condition
    | .ok c => if asBool c then lost vars thenBranch else lost vars elseBranch

/-! ## The operand of an evaluation -/

/-- Every operand names its communication inputs in order, each once. -/
def Provenance (vars : Variables F64) : Prop :=
  ∀ name o, vars name = some o → Ascending o.communicationInputs

/-- What `eval` returns, told from the values on the path and the operands it merges. -/
structure Returns (vars : Variables F64) (e : Expr F64) (o : Operand F64) (err : Option String) :
    Prop where
  value : ∀ v, valueOf vars e = .ok v → err = none ∧ o.value = v
  error : ∀ text, valueOf vars e = .error text → err = some text
  merges : Merges o.sourceTimestamp o.communicationInputs (merged vars e)

theorem valueOf_unary (vars : Variables F64) (op : UnaryOp) (operand : Expr F64) :
    valueOf vars (.unary op operand) = (valueOf vars operand).bind (evalUnary op) := by
  rw [valueOf, Nodes.run, Trace.andThen_result]
  rfl

theorem valueOf_binary (vars : Variables F64) (op : BinOp) (left right : Expr F64) :
    valueOf vars (.binary op left right) =
      (valueOf vars left).bind fun l =>
        ((nodes vars).decided op l).elim ((valueOf vars right).bind (evalBinary op l)) .ok := by
  rw [valueOf, Nodes.run, Trace.andThen_result]
  refine congrArg (Except.bind _) (funext fun l => ?_)
  cases (nodes vars).decided op l with
  | some v => rfl
  | none =>
    dsimp only
    rw [Trace.andThen_result]
    rfl

theorem valueOf_ite (vars : Variables F64) (condition thenBranch elseBranch : Expr F64) :
    valueOf vars (.ite condition thenBranch elseBranch) =
      (valueOf vars condition).bind fun c =>
        if asBool c then valueOf vars thenBranch else valueOf vars elseBranch := by
  rw [valueOf, Nodes.run, Trace.andThen_result]
  refine congrArg (Except.bind _) (funext fun c => ?_)
  have htruth : (nodes vars).truth c = asBool c := rfl
  rw [htruth]
  cases asBool c <;> rfl

/-- What an operator keeps once its left operand has a value. -/
theorem merged_binary {vars : Variables F64} (op : BinOp) {left : Expr F64} (right : Expr F64)
    {l : EvalValue F64} (h : valueOf vars left = .ok l) :
    merged vars (.binary op left right) =
      ((nodes vars).decided op l).elim
        (if (valueOf vars right).isOk then merged vars left ++ merged vars right else [.zero])
        fun _ => merged vars left := by
  rw [merged, h]
  cases hd : (nodes vars).decided op l with
  | some v => simp only [hd, Option.elim]
  | none =>
    simp only [hd, Option.elim]
    cases valueOf vars right <;> rfl

theorem merged_ite {vars : Variables F64} {condition : Expr F64}
    (thenBranch elseBranch : Expr F64) {c : EvalValue F64} (h : valueOf vars condition = .ok c) :
    merged vars (.ite condition thenBranch elseBranch) =
      merged vars condition ++
        if asBool c then merged vars thenBranch else merged vars elseBranch := by
  rw [merged, h]

theorem merged_ne_nil (vars : Variables F64) (e : Expr F64) : merged vars e ≠ [] := by
  induction e with
  | literal v => simp [merged]
  | var name => simp [merged]
  | unary op operand ih =>
    rw [merged]
    split
    · exact List.cons_ne_nil _ _
    · exact ih
  | binary op left right ihl ihr =>
    rw [merged]
    split
    · exact List.cons_ne_nil _ _
    · split
      · exact ihl
      · split
        · exact List.cons_ne_nil _ _
        · exact List.append_ne_nil_of_left_ne_nil ihl _
  | ite condition thenBranch elseBranch ihc iht ihe =>
    rw [merged]
    split
    · exact ihc
    · exact List.append_ne_nil_of_left_ne_nil ihc _

theorem decided_eq (vars : Variables F64) (op : BinOp) (l : EvalValue F64) :
    (nodes vars).decided op l =
      if op = .and ∧ !asBool l then some (.bool false)
      else if op = .or ∧ asBool l then some (.bool true) else none := by
  cases op
  case and | or =>
    by_cases hb : asBool l = true <;> simp [Nodes.decided, nodes, hb]
  all_goals rfl

theorem Returns.failed {vars : Variables F64} {e : Expr F64} {o : Operand F64} {text : String}
    (hvalue : valueOf vars e = .error text)
    (hmerges : Merges o.sourceTimestamp o.communicationInputs (merged vars e)) :
    Returns vars e o (some text) where
  value := by
    intro v hv
    rw [hvalue] at hv
    cases hv
  error := by
    intro text' htext
    rw [hvalue] at htext
    cases htext
    rfl
  merges := hmerges

theorem Returns.done {vars : Variables F64} {e : Expr F64} {o : Operand F64}
    (hvalue : valueOf vars e = .ok o.value)
    (hmerges : Merges o.sourceTimestamp o.communicationInputs (merged vars e)) :
    Returns vars e o none where
  value := by
    intro v hv
    rw [hvalue] at hv
    cases hv
    exact ⟨rfl, rfl⟩
  error := by
    intro text htext
    rw [hvalue] at htext
    cases htext
  merges := hmerges

/-- The operand of an expression whose value is known to have failed or not. -/
theorem Returns.cases {vars : Variables F64} {e : Expr F64} {o : Operand F64}
    {err : Option String} (h : Returns vars e o err) :
    (∃ text, valueOf vars e = .error text ∧ err = some text) ∨
      (valueOf vars e = .ok o.value ∧ err = none) := by
  cases hv : valueOf vars e with
  | error text => exact .inl ⟨text, rfl, h.error text hv⟩
  | ok v =>
    obtain ⟨rfl, rfl⟩ := h.value v hv
    exact .inr ⟨rfl, rfl⟩

theorem returns_eval {vars : Variables F64} (hvars : Provenance vars) (e : Expr F64) :
    Returns vars e (eval vars e).1 (eval vars e).2 := by
  induction e with
  | literal v => exact .done rfl Merges.zero
  | var name =>
    have hvalue : valueOf vars (.var name) = (nodes vars).lookup name := rfl
    rw [eval]
    cases h : vars name with
    | none =>
      simp only [nodes, h] at hvalue
      refine .failed hvalue ?_
      simp only [merged, h]
      exact Merges.zero
    | some o =>
      simp only [nodes, h] at hvalue
      refine .done hvalue ?_
      simp only [merged, h]
      exact Merges.single (hvars name o h)
  | unary op operand ih =>
    rw [eval]
    generalize eval vars operand = returned at ih ⊢
    obtain ⟨o, err⟩ := returned
    have hmerges := ih.merges
    rcases ih.cases with ⟨text, hv, rfl⟩ | ⟨hv, rfl⟩
    · refine Returns.failed (?_ : valueOf vars _ = .error text) ?_
      · rw [valueOf_unary, hv]; rfl
      · simp only [merged, hv]
        exact Merges.zero
    · have hmerged : merged vars (.unary op operand) = merged vars operand := by
        simp only [merged, hv]
      have hvalue : valueOf vars (.unary op operand) = evalUnary op o.value := by
        rw [valueOf_unary, hv]; rfl
      dsimp only
      cases hop : evalUnary op o.value with
      | error text => exact .failed (hvalue.trans hop) (hmerged ▸ hmerges)
      | ok v => exact .done (hvalue.trans hop) (hmerged ▸ hmerges)
  | binary op left right ihl ihr =>
    rw [eval]
    generalize eval vars left = returnedLeft at ihl ⊢
    generalize eval vars right = returnedRight at ihr ⊢
    obtain ⟨l, lerr⟩ := returnedLeft
    obtain ⟨r, rerr⟩ := returnedRight
    have hleft := ihl.merges
    have hright := ihr.merges
    rcases ihl.cases with ⟨text, hl, rfl⟩ | ⟨hl, rfl⟩
    · refine Returns.failed (?_ : valueOf vars _ = .error text) ?_
      · rw [valueOf_binary, hl]; rfl
      · simp only [merged, hl]
        exact Merges.zero
    · have hvalue := valueOf_binary vars op left right
      have hmerged := merged_binary op right hl
      rw [hl, Except.bind] at hvalue
      dsimp only at hvalue hmerged ⊢
      rw [decided_eq] at hvalue hmerged
      by_cases hand : op = .and ∧ (!asBool l.value) = true
      · rw [if_pos hand] at hvalue hmerged ⊢
        exact .done hvalue (hmerged ▸ hleft)
      by_cases hor : op = .or ∧ asBool l.value = true
      · rw [if_neg hand, if_pos hor] at hvalue hmerged ⊢
        exact .done hvalue (hmerged ▸ hleft)
      rw [if_neg hand, if_neg hor] at hvalue hmerged ⊢
      simp only [Option.elim] at hvalue hmerged
      rcases ihr.cases with ⟨text, hr, rfl⟩ | ⟨hr, rfl⟩
      · rw [hr] at hvalue hmerged
        exact .failed hvalue (hmerged ▸ Merges.zero)
      · rw [hr] at hvalue hmerged
        have hboth := hleft.append (merged_ne_nil vars left) hright (merged_ne_nil vars right)
        have hop : valueOf vars (.binary op left right) = evalBinary op l.value r.value := hvalue
        dsimp only
        cases h : evalBinary op l.value r.value with
        | error text => exact .failed (hop.trans h) (hmerged ▸ hboth)
        | ok v => exact .done (hop.trans h) (hmerged ▸ hboth)
  | ite condition thenBranch elseBranch ihc iht ihe =>
    rw [eval]
    generalize eval vars condition = returned at ihc ⊢
    obtain ⟨c, cerr⟩ := returned
    have hcondition := ihc.merges
    rcases ihc.cases with ⟨text, hc, rfl⟩ | ⟨hc, rfl⟩
    · refine Returns.failed (?_ : valueOf vars _ = .error text) ?_
      · rw [valueOf_ite, hc]; rfl
      · simp only [merged, hc]
        exact hcondition
    · have hbranch : ∀ branch, Returns vars branch (eval vars branch).1 (eval vars branch).2 →
          valueOf vars (.ite condition thenBranch elseBranch) = valueOf vars branch →
          merged vars (.ite condition thenBranch elseBranch) =
            merged vars condition ++ merged vars branch →
          Returns vars (.ite condition thenBranch elseBranch)
            (c.combine (eval vars branch).1 (eval vars branch).1.value) (eval vars branch).2 := by
        intro branch hreturns hvalue hmerged
        have hboth := hcondition.append (merged_ne_nil vars condition) hreturns.merges
          (merged_ne_nil vars branch)
        rcases hreturns.cases with ⟨text, hv, herr⟩ | ⟨hv, herr⟩
        · rw [herr]
          exact .failed (hvalue.trans hv) (hmerged ▸ hboth)
        · rw [herr]
          exact .done (hvalue.trans hv) (hmerged ▸ hboth)
      have hvalue := valueOf_ite vars condition thenBranch elseBranch
      have hmerged := merged_ite thenBranch elseBranch hc
      rw [hc, Except.bind] at hvalue
      dsimp only at hvalue hmerged ⊢
      cases hb : asBool c.value with
      | true =>
        rw [hb, if_pos rfl] at hvalue hmerged
        exact hbranch thenBranch iht hvalue hmerged
      | false =>
        rw [hb, if_neg Bool.false_ne_true] at hvalue hmerged
        exact hbranch elseBranch ihe hvalue hmerged

/-! ## What a failure loses -/

/-- The metadata that the evaluated variables have together is in the operand of a failed
evaluation, and so in the fallback of every rule with this expression. -/
def KeepsMetadata (vars : Variables F64) (e : Expr F64) : Prop :=
  ∀ err, (eval vars e).2 = some err →
    Merges (eval vars e).1.sourceTimestamp (eval vars e).1.communicationInputs
      (evaluated vars e) ∧
    ∀ rule : CompiledRule F64, rule.ast = e →
      Merges (outcome rule vars).sourceTimestamp (outcome rule vars).communicationInputs
        (evaluated vars e)

/-- Nothing a failed operator forgets is later than what the conditions around it merge, or has
other communication inputs. Where an empty operand is merged, its zero time is not after
everything evaluated. -/
structure Covered (vars : Variables F64) (e : Expr F64) : Prop where
  latest : ∀ o ∈ lost vars e, ∃ m ∈ merged vars e, o.sourceTimestamp ≤ m.sourceTimestamp
  inputs : ∀ o ∈ lost vars e, ∀ name ∈ o.communicationInputs,
    ∃ m ∈ merged vars e, name ∈ m.communicationInputs
  dated : evaluated vars e = [] ∨
    ∃ o ∈ evaluated vars e, ∀ m ∈ merged vars e, m.sourceTimestamp ≤ o.sourceTimestamp

theorem evaluated_unary (vars : Variables F64) (op : UnaryOp) (operand : Expr F64) :
    evaluated vars (.unary op operand) = evaluated vars operand := by
  rw [evaluated, Nodes.run]
  cases h : ((nodes vars).run operand).result with
  | error text => rw [Trace.andThen_error h]; rfl
  | ok v => rw [Trace.andThen_ok h, List.append_nil]; rfl

theorem evaluated_binary_error {vars : Variables F64} (op : BinOp) {left : Expr F64}
    (right : Expr F64) {text : String} (h : valueOf vars left = .error text) :
    evaluated vars (.binary op left right) = evaluated vars left := by
  rw [evaluated, Nodes.run, Trace.andThen_error h]
  rfl

theorem evaluated_binary_ok {vars : Variables F64} (op : BinOp) {left : Expr F64}
    (right : Expr F64) {l : EvalValue F64} (h : valueOf vars left = .ok l) :
    evaluated vars (.binary op left right) =
      evaluated vars left ++ ((nodes vars).decided op l).elim (evaluated vars right) fun _ => [] := by
  rw [evaluated, Nodes.run, Trace.andThen_ok h, List.filterMap_append]
  refine congrArg (evaluated vars left ++ ·) ?_
  cases hd : (nodes vars).decided op l with
  | some v => rfl
  | none =>
    dsimp only [Option.elim]
    cases hr : ((nodes vars).run right).result with
    | error text => rw [Trace.andThen_error hr]; rfl
    | ok r => rw [Trace.andThen_ok hr, List.append_nil]; rfl

theorem evaluated_ite_error {vars : Variables F64} {condition : Expr F64}
    (thenBranch elseBranch : Expr F64) {text : String}
    (h : valueOf vars condition = .error text) :
    evaluated vars (.ite condition thenBranch elseBranch) = evaluated vars condition := by
  rw [evaluated, Nodes.run, Trace.andThen_error h]
  rfl

theorem evaluated_ite_ok {vars : Variables F64} {condition : Expr F64}
    (thenBranch elseBranch : Expr F64) {c : EvalValue F64} (h : valueOf vars condition = .ok c) :
    evaluated vars (.ite condition thenBranch elseBranch) =
      evaluated vars condition ++
        if asBool c then evaluated vars thenBranch else evaluated vars elseBranch := by
  rw [evaluated, Nodes.run, Trace.andThen_ok h, List.filterMap_append]
  have htruth : (nodes vars).truth c = asBool c := rfl
  rw [htruth]
  cases asBool c <;> rfl

/-- Merged and forgotten operands are the evaluated ones, apart from empty ones. -/
structure Accounted (merged lost evaluated : List (Operand F64)) : Prop where
  ofMerged : ∀ m ∈ merged, m ∈ evaluated ∨ m = .zero
  ofLost : ∀ o ∈ lost, o ∈ evaluated
  ofEvaluated : ∀ o ∈ evaluated, o ∈ merged ∨ o ∈ lost

omit [FloatOps F64 F32] in
theorem Accounted.discarded (evaluated : List (Operand F64)) :
    Accounted [.zero] evaluated evaluated where
  ofMerged := fun _ hm => .inr (List.mem_singleton.mp hm)
  ofLost := fun _ ho => ho
  ofEvaluated := fun _ ho => .inr ho

omit [FloatOps F64 F32] in
theorem Accounted.append {merged lost evaluated merged' lost' evaluated' : List (Operand F64)}
    (h : Accounted merged lost evaluated) (h' : Accounted merged' lost' evaluated') :
    Accounted (merged ++ merged') (lost ++ lost') (evaluated ++ evaluated') where
  ofMerged := by
    intro m hm
    rcases List.mem_append.mp hm with hm | hm
    · exact (h.ofMerged m hm).imp_left (List.mem_append_left _)
    · exact (h'.ofMerged m hm).imp_left (List.mem_append_right _)
  ofLost := by
    intro o ho
    rcases List.mem_append.mp ho with ho | ho
    · exact List.mem_append_left _ (h.ofLost o ho)
    · exact List.mem_append_right _ (h'.ofLost o ho)
  ofEvaluated := by
    intro o ho
    rcases List.mem_append.mp ho with ho | ho
    · exact (h.ofEvaluated o ho).imp (List.mem_append_left _) (List.mem_append_left _)
    · exact (h'.ofEvaluated o ho).imp (List.mem_append_right _) (List.mem_append_right _)

theorem lost_of_ok {vars : Variables F64} {e : Expr F64} {v : EvalValue F64}
    (h : valueOf vars e = .ok v) : lost vars e = [] := by
  induction e generalizing v with
  | literal w => rfl
  | var name => rfl
  | unary op operand ih =>
    rw [valueOf_unary] at h
    cases hv : valueOf vars operand with
    | error text => rw [hv] at h; cases h
    | ok w => simp only [lost, hv]
  | binary op left right ihl ihr =>
    rw [valueOf_binary] at h
    cases hl : valueOf vars left with
    | error text => rw [hl] at h; cases h
    | ok l =>
      rw [hl, Except.bind] at h
      cases hd : (nodes vars).decided op l with
      | some w => simp only [lost, hl, hd]
      | none =>
        cases hr : valueOf vars right with
        | error text => simp only [hd, hr] at h; cases h
        | ok r => simp only [lost, hl, hd, hr]
  | ite condition thenBranch elseBranch ihc iht ihe =>
    rw [valueOf_ite] at h
    cases hc : valueOf vars condition with
    | error text => rw [hc] at h; cases h
    | ok c =>
      rw [hc, Except.bind] at h
      simp only [lost, hc]
      split_ifs at h ⊢
      · exact iht h
      · exact ihe h

theorem accounted (vars : Variables F64) (e : Expr F64) :
    Accounted (merged vars e) (lost vars e) (evaluated vars e) := by
  induction e with
  | literal v => exact .discarded []
  | var name =>
    cases h : vars name with
    | none =>
      have hevaluated : evaluated vars (.var name) = [] := by
        simp [evaluated, Nodes.run, h]
      rw [hevaluated, merged, h]
      exact .discarded []
    | some o =>
      have hevaluated : evaluated vars (.var name) = [o] := by
        simp [evaluated, Nodes.run, h]
      rw [hevaluated, merged, h]
      exact ⟨fun _ hm => .inl hm, fun _ ho => absurd ho List.not_mem_nil, fun _ ho => .inl ho⟩
  | unary op operand ih =>
    rw [evaluated_unary, merged, lost]
    cases hv : valueOf vars operand with
    | error text => exact .discarded _
    | ok v => exact lost_of_ok hv ▸ ih
  | binary op left right ihl ihr =>
    cases hl : valueOf vars left with
    | error text =>
      rw [evaluated_binary_error op right hl]
      simp only [merged, lost, hl]
      exact .discarded _
    | ok l =>
      rw [lost_of_ok hl] at ihl
      rw [evaluated_binary_ok op right hl]
      cases hd : (nodes vars).decided op l with
      | some v => simpa only [merged, lost, hl, hd, Option.elim, List.append_nil] using ihl
      | none =>
        cases hr : valueOf vars right with
        | error text =>
          simp only [merged, lost, hl, hd, hr, Option.elim]
          exact .discarded _
        | ok r =>
          rw [lost_of_ok hr] at ihr
          simp only [merged, lost, hl, hd, hr, Option.elim]
          exact ihl.append ihr
  | ite condition thenBranch elseBranch ihc iht ihe =>
    cases hc : valueOf vars condition with
    | error text =>
      rw [evaluated_ite_error thenBranch elseBranch hc]
      simpa only [merged, lost, hc] using ihc
    | ok c =>
      rw [lost_of_ok hc] at ihc
      rw [evaluated_ite_ok thenBranch elseBranch hc, merged_ite thenBranch elseBranch hc, lost, hc]
      dsimp only
      split_ifs
      · exact ihc.append iht
      · exact ihc.append ihe

/-- When the merged operands speak for all evaluated ones. -/
theorem merges_evaluated_iff {time : Time} {inputs : List String} {vars : Variables F64}
    {e : Expr F64} (h : Merges time inputs (merged vars e)) :
    Merges time inputs (evaluated vars e) ↔ Covered vars e := by
  have hsame := accounted vars e
  obtain ⟨top, htop, htime⟩ := h.attained.resolve_left fun hnil => merged_ne_nil vars e hnil.1
  constructor
  · intro hall
    refine ⟨fun o ho => ?_, fun o ho name hname => ?_, ?_⟩
    · exact ⟨top, htop, htime ▸ hall.latest o (hsame.ofLost o ho)⟩
    · exact (h.union name).mp ((hall.union name).mpr ⟨o, hsame.ofLost o ho, hname⟩)
    · rcases hall.attained with ⟨hnil, _⟩ | ⟨o, ho, hdated⟩
      · exact .inl hnil
      · exact .inr ⟨o, ho, fun m hm => hdated ▸ h.latest m hm⟩
  · intro hcovered
    refine ⟨fun o ho => ?_, ?_, h.sorted, fun name => ?_⟩
    · rcases hsame.ofEvaluated o ho with hm | hl
      · exact h.latest o hm
      · obtain ⟨m, hm, hle⟩ := hcovered.latest o hl
        exact hle.trans (h.latest m hm)
    · rcases hcovered.dated with hnil | ⟨o, ho, hdated⟩
      · refine .inl ⟨hnil, ?_⟩
        rcases hsame.ofMerged top htop with hm | rfl
        · rw [hnil] at hm; cases hm
        · exact htime.symm
      · refine .inr ⟨o, ho, ?_⟩
        have hge : time ≤ o.sourceTimestamp := htime ▸ hdated top htop
        rcases hsame.ofEvaluated o ho with hm | hl
        · exact le_antisymm (h.latest o hm) hge
        · obtain ⟨m, hm, hle⟩ := hcovered.latest o hl
          exact le_antisymm (hle.trans (h.latest m hm)) hge
    · rw [h.union]
      constructor
      · rintro ⟨m, hm, hname⟩
        rcases hsame.ofMerged m hm with hm | rfl
        · exact ⟨m, hm, hname⟩
        · cases hname
      · rintro ⟨o, ho, hname⟩
        rcases hsame.ofEvaluated o ho with hm | hl
        · exact ⟨o, hm, hname⟩
        · exact hcovered.inputs o hl name hname

theorem outcome_metadata (rule : CompiledRule F64) (vars : Variables F64) :
    (outcome rule vars : Outcome F64 F32).sourceTimestamp =
        (eval vars rule.ast).1.sourceTimestamp ∧
      (outcome rule vars : Outcome F64 F32).communicationInputs =
        (eval vars rule.ast).1.communicationInputs := by
  simp only [outcome]
  split_ifs <;> exact ⟨rfl, rfl⟩

/-! ## Operands of a runner -/

/-- The runners that `NewRunner`, `Reset` and `Update` lead to. -/
inductive Reached : Runner F64 F32 → Prop where
  | new (plan : Plan F64) : Reached (newRunner plan)
  | reset {r : Runner F64 F32} (h : Reached r) (inputs : Inputs F64 F32) (stamp : Stamp) :
      Reached (reset r inputs stamp).1
  | update {r : Runner F64 F32} (h : Reached r) (inputs : Inputs F64 F32) (stamp : Stamp) :
      Reached (update r inputs stamp).1

omit [FloatOps F64 F32] in
theorem Provenance.store {vars : Variables F64} (h : Provenance vars) (name : String)
    {o : Operand F64} (ho : Ascending o.communicationInputs) :
    Provenance (Function.update vars name (some o)) := by
  intro other o' hother
  by_cases heq : other = name
  · rw [heq, Function.update_self] at hother
    cases hother
    exact ho
  · rw [Function.update_of_ne heq] at hother
    exact h other o' hother

theorem ascending_inputOperand (name : String) (input : Input F64 F32) :
    Ascending (inputOperand name input).communicationInputs := by
  unfold inputOperand
  split_ifs
  · exact List.pairwise_singleton _ _
  · exact List.Pairwise.nil

theorem provenance_writeInputs {vars : Variables F64} (h : Provenance vars)
    (inputs : Inputs F64 F32) : Provenance (writeInputs vars inputs) := by
  unfold writeInputs
  induction inputs.entries generalizing vars with
  | nil => exact h
  | cons x rest ih => exact ih (h.store x.1 (ascending_inputOperand x.1 x.2))

theorem provenance_evaluateRules (stamp : Stamp)
    (rows : List (CompiledRule F64 × Bool × Result F64 F32)) {vars : Variables F64}
    (h : Provenance vars) : Provenance (evaluateRules stamp rows vars).1 := by
  induction rows generalizing vars with
  | nil => exact h
  | cons row rest ih =>
    obtain ⟨rule, affected, previous⟩ := row
    rw [evaluateRules]
    cases affected with
    | false => exact ih h
    | true =>
      have hnew : Ascending (outcome rule vars : Outcome F64 F32).operand.communicationInputs := by
        rw [Outcome.operand, (outcome_metadata rule vars).2]
        exact (returns_eval h rule.ast).merges.sorted
      exact ih (h.store rule.output hnew)

/-- The operands of a runner name their communication inputs in order, whatever it was given. -/
theorem reached_provenance {r : Runner F64 F32} (h : Reached r) : Provenance r.vars := by
  induction h with
  | new plan =>
    intro name o ho
    cases ho
  | reset h inputs stamp ih =>
    have hnone : Provenance (fun _ => none : Variables F64) := fun name o ho => by cases ho
    exact provenance_evaluateRules stamp _ (provenance_writeInputs hnone inputs)
  | update h inputs stamp ih =>
    unfold update
    split_ifs
    · exact ih
    · exact provenance_evaluateRules stamp _ (provenance_writeInputs ih inputs)

/-! ## When a failure loses nothing -/

/-- A failed evaluation keeps the metadata of what it evaluated when no failed operator forgets
any of it: an error of the operator itself, of a condition or of a branch forgets nothing. -/
theorem failed_keeps_metadata_iff {vars : Variables F64} (hvars : Provenance vars)
    (e : Expr F64) :
    KeepsMetadata vars e ↔ (∃ v, valueOf vars e = .ok v) ∨ Covered vars e := by
  have hreturns := returns_eval hvars e
  constructor
  · intro hkeeps
    rcases hreturns.cases with ⟨text, _, herr⟩ | ⟨hv, _⟩
    · exact .inr ((merges_evaluated_iff hreturns.merges).mp (hkeeps text herr).1)
    · exact .inl ⟨_, hv⟩
  · rintro (⟨v, hv⟩ | hcovered) err herr
    · rw [(hreturns.value v hv).1] at herr
      cases herr
    · have hkept := (merges_evaluated_iff hreturns.merges).mpr hcovered
      refine ⟨hkept, ?_⟩
      rintro rule rfl
      obtain ⟨htime, hinputs⟩ := outcome_metadata rule vars
      rw [htime, hinputs]
      exact hkept

/-- `A / 0 + 1` -/
def failedLeft : Expr Int :=
  .binary .add (.binary .div (.var "A") (.literal (.int 0))) (.literal (.int 1))

/-- `A` was read at time 5 and has lost its communication. -/
def readA : Variables Int := fun name =>
  if name = "A" then some ⟨.int 0, statusBadNoCommunication, 5, ["A"]⟩ else none

theorem provenance_readA : Provenance readA := by
  intro name o ho
  unfold readA at ho
  split_ifs at ho
  cases ho
  exact List.pairwise_singleton _ _

/-- `A / 0` keeps time and provenance of `A`. -/
theorem failed_keeps_metadata_quotient :
    KeepsMetadata readA (.binary .div (.var "A") (.literal (.int 0))) := by
  refine (failed_keeps_metadata_iff provenance_readA _).mpr (.inr ⟨?_, ?_, .inr ?_⟩)
  · exact fun o ho => absurd ho List.not_mem_nil
  · exact fun o ho => absurd ho List.not_mem_nil
  · exact ⟨⟨.int 0, statusBadNoCommunication, 5, ["A"]⟩, by decide, by decide⟩

/-- As an operand of a sum it does not: the operand is empty. -/
theorem failed_operand_forgets :
    eval readA failedLeft = (.zero, some "division by zero") ∧
    evaluated readA failedLeft = [⟨.int 0, statusBadNoCommunication, 5, ["A"]⟩] ∧
    ¬ KeepsMetadata readA failedLeft := by
  have hrun : eval readA failedLeft = (.zero, some "division by zero") := by decide
  have hread : evaluated readA failedLeft =
      [⟨.int 0, statusBadNoCommunication, 5, ["A"]⟩] := by decide
  refine ⟨hrun, hread, fun hkeeps => ?_⟩
  have hmerges := (hkeeps "division by zero" (by rw [hrun])).1
  rw [hrun, hread] at hmerges
  exact absurd (hmerges.latest _ List.mem_cons_self) (by decide)

end

end RcdServer.Calc.Go
