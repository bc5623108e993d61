import Mathlib.Data.Finset.Card
import RcdServer.Calc.Go.Runner
import RcdServer.Lib.Dataflow

/-!
# Incremental evaluation

The rules of a plan are a network of computed cells. The search of `update` marks every rule
that a changed input reaches, so a runner stays settled for the inputs written last, and its
results are those of a single `reset` with these inputs.
-/
namespace RcdServer.Calc.Go

open Lib

variable {F64 F32 : Type}

/-! ## The search marks a closed set of rules -/

section Search

variable {plan : Plan F64}

/-- Pops and pushes that are still to come at most. -/
def pending (plan : Plan F64) (m : Marking) : Nat :=
  m.queue.length + ((Finset.range plan.rules.length).filter fun i => m.affected i = false).card

structure MarkInv (plan : Plan F64) (names : List String) (m : Marking) : Prop where
  inputs : ∀ name ∈ names, name ∈ m.visitedNames ∨ name ∈ m.queue
  visited : ∀ name ∈ m.visitedNames, ∀ i ∈ plan.dependents name, m.affected i = true
  affected : ∀ (i : Nat) (rule : CompiledRule F64), plan.rules[i]? = some rule →
    m.affected i = true → rule.output ∈ m.visitedNames ∨ rule.output ∈ m.queue

theorem pending_markRule (m : Marking) (index : Nat) :
    pending plan (markRule plan m index) ≤ pending plan m := by
  unfold markRule
  by_cases haff : m.affected index = true
  · rw [if_pos haff]
  rw [if_neg haff]
  have hfalse : m.affected index = false := by simpa using haff
  have hfilter : ((Finset.range plan.rules.length).filter fun i =>
      Function.update m.affected index true i = false) =
      ((Finset.range plan.rules.length).filter fun i => m.affected i = false).erase index := by
    ext i
    by_cases hi : i = index
    · simp [hi]
    · simp [hi]
  simp only [pending, hfilter, List.length_append]
  by_cases hlt : index < plan.rules.length
  · have hmem : index ∈ (Finset.range plan.rules.length).filter fun i => m.affected i = false := by
      simp [hlt, hfalse]
    have hpos := Finset.card_pos.mpr ⟨index, hmem⟩
    rw [Finset.card_erase_of_mem hmem, List.getElem?_eq_getElem hlt]
    simp only [Option.map_some, Option.toList_some, List.length_singleton]
    omega
  · have hnone : plan.rules[index]? = none := List.getElem?_eq_none (by omega)
    have hnot : index ∉ (Finset.range plan.rules.length).filter fun i => m.affected i = false := by
      simp [hlt]
    rw [hnone, Finset.erase_eq_of_notMem hnot]
    simp

theorem pending_markRules (l : List Nat) (m : Marking) :
    pending plan (l.foldl (markRule plan) m) ≤ pending plan m := by
  induction l generalizing m with
  | nil => exact Nat.le_refl _
  | cons i l ih => exact (ih _).trans (pending_markRule m i)

theorem pending_visitName {m : Marking} {name : String} {rest : List String}
    (hq : m.queue = name :: rest) :
    pending plan (visitName plan m name rest) < pending plan m := by
  have hpop : ∀ visited, pending plan ⟨m.affected, rest, visited⟩ < pending plan m := by
    intro visited
    simp only [pending, hq, List.length_cons]
    omega
  unfold visitName
  split_ifs
  · exact hpop m.visitedNames
  · exact Nat.lt_of_le_of_lt (pending_markRules _ _) (hpop _)

theorem markLoop_queue (fuel : Nat) (m : Marking) (hfuel : pending plan m ≤ fuel) :
    (markLoop plan fuel m).queue = [] := by
  induction fuel generalizing m with
  | zero =>
    have hlen : m.queue.length = 0 := by
      unfold pending at hfuel
      omega
    simpa [markLoop] using hlen
  | succ fuel ih =>
    cases hq : m.queue with
    | nil => simp [markLoop, hq]
    | cons name rest =>
      have hlt : pending plan (visitName plan m name rest) < pending plan m := pending_visitName hq
      simp only [markLoop, hq]
      exact ih _ (by omega)

/-- Marking some rules: they are affected afterwards, and the outputs of the new ones queued. -/
theorem markRules_spec (plan : Plan F64) (l : List Nat) (m : Marking) :
    (l.foldl (markRule plan) m).visitedNames = m.visitedNames ∧
    (∀ i, (l.foldl (markRule plan) m).affected i = true ↔ m.affected i = true ∨ i ∈ l) ∧
    (∀ s ∈ m.queue, s ∈ (l.foldl (markRule plan) m).queue) ∧
    ∀ (i : Nat) (rule : CompiledRule F64), plan.rules[i]? = some rule →
      (l.foldl (markRule plan) m).affected i = true →
      m.affected i = true ∨ rule.output ∈ (l.foldl (markRule plan) m).queue := by
  induction l generalizing m with
  | nil =>
    refine ⟨rfl, fun i => by simp, fun s hs => hs, fun i rule _ hi => .inl hi⟩
  | cons j l ih =>
    obtain ⟨hvis, haff, hqueue, hout⟩ := ih (markRule plan m j)
    have hone : (markRule plan m j).visitedNames = m.visitedNames ∧
        (∀ i, (markRule plan m j).affected i = true ↔ m.affected i = true ∨ i = j) ∧
        (∀ s ∈ m.queue, s ∈ (markRule plan m j).queue) ∧
        ∀ rule, plan.rules[j]? = some rule →
          m.affected j = true ∨ rule.output ∈ (markRule plan m j).queue := by
      unfold markRule
      by_cases hj : m.affected j = true
      · rw [if_pos hj]
        refine ⟨rfl, fun i => ⟨.inl, ?_⟩, fun s hs => hs, fun rule _ => .inl hj⟩
        rintro (hi | rfl)
        · exact hi
        · exact hj
      · rw [if_neg hj]
        refine ⟨rfl, fun i => ?_, fun s hs => List.mem_append_left _ hs, fun rule hrule => .inr ?_⟩
        · by_cases hi : i = j
          · simp [hi]
          · simp [hi]
        · simp [hrule]
    refine ⟨hvis.trans hone.1, fun i => ?_, fun s hs => hqueue s (hone.2.2.1 s hs),
      fun i rule hrule hi => ?_⟩
    · rw [List.foldl_cons, haff, hone.2.1, List.mem_cons, or_assoc]
    · rcases hout i rule hrule hi with hmid | hin
      · rcases (hone.2.1 i).mp hmid with hold | rfl
        · exact .inl hold
        · exact (hone.2.2.2 rule hrule).imp_right (hqueue _)
      · exact .inr hin

theorem markInv_visitName {names : List String} {m : Marking} {name : String} {rest : List String}
    (h : MarkInv plan names m) (hq : m.queue = name :: rest) :
    MarkInv plan names (visitName plan m name rest) := by
  have hqueue : ∀ s, s ∈ m.queue ↔ s = name ∨ s ∈ rest := by simp [hq]
  unfold visitName
  by_cases hseen : name ∈ m.visitedNames
  · rw [if_pos hseen]
    have hpop : ∀ s, s ∈ m.visitedNames ∨ s ∈ m.queue → s ∈ m.visitedNames ∨ s ∈ rest := by
      rintro s (hs | hs)
      · exact .inl hs
      · rcases (hqueue s).mp hs with rfl | hs
        · exact .inl hseen
        · exact .inr hs
    exact ⟨fun s hs => hpop s (h.inputs s hs), h.visited,
      fun i rule hrule hi => hpop _ (h.affected i rule hrule hi)⟩
  · rw [if_neg hseen]
    generalize hm0 : ({ m with queue := rest, visitedNames := name :: m.visitedNames } : Marking) = m0
    have hvis0 : m0.visitedNames = name :: m.visitedNames := by rw [← hm0]
    have haff0 : m0.affected = m.affected := by rw [← hm0]
    have hqueue0 : m0.queue = rest := by rw [← hm0]
    obtain ⟨hvis, haff, hkeep, hout⟩ := markRules_spec plan (plan.dependents name) m0
    rw [hvis0] at hvis
    rw [haff0] at haff hout
    rw [hqueue0] at hkeep
    have hmove : ∀ s, s ∈ m.visitedNames ∨ s ∈ m.queue →
        s ∈ ((plan.dependents name).foldl (markRule plan) m0).visitedNames ∨
          s ∈ ((plan.dependents name).foldl (markRule plan) m0).queue := by
      rintro s (hs | hs)
      · exact .inl (hvis ▸ List.mem_cons_of_mem name hs)
      · rcases (hqueue s).mp hs with rfl | hs
        · exact .inl (hvis ▸ List.mem_cons_self)
        · exact .inr (hkeep s hs)
    refine ⟨fun s hs => hmove s (h.inputs s hs), fun s hs i hi => ?_, fun i rule hrule hi => ?_⟩
    · rw [haff]
      rw [hvis] at hs
      rcases List.mem_cons.mp hs with rfl | hs
      · exact .inr hi
      · exact .inl (h.visited s hs i hi)
    · rcases hout i rule hrule hi with hold | hin
      · exact hmove _ (h.affected i rule hrule hold)
      · exact .inr hin

theorem markInv_markLoop {names : List String} (fuel : Nat) {m : Marking}
    (h : MarkInv plan names m) : MarkInv plan names (markLoop plan fuel m) := by
  induction fuel generalizing m with
  | zero => exact h
  | succ fuel ih =>
    cases hq : m.queue with
    | nil => simpa [markLoop, hq] using h
    | cons name rest => simpa [markLoop, hq] using ih (markInv_visitName h hq)

/-- A rule that the search leaves unmarked reads no changed name and no output of a marked rule. -/
theorem markAffected_closed (names : List String) {i : Nat}
    (hi : markAffected plan names i = false) {name : String} (hdep : i ∈ plan.dependents name) :
    name ∉ names ∧ ∀ (j : Nat) (rule : CompiledRule F64), plan.rules[j]? = some rule →
      markAffected plan names j = true → rule.output ≠ name := by
  have hstart : MarkInv plan names ⟨fun _ => false, names, []⟩ := by
    refine ⟨fun s hs => .inr hs, by simp, ?_⟩
    intro i rule _ hfalse
    cases hfalse
  have hinv := markInv_markLoop (names.length + plan.rules.length) hstart
  have hqueue : (markLoop plan (names.length + plan.rules.length)
      ⟨fun _ => false, names, []⟩).queue = [] := by
    apply markLoop_queue
    simp [pending]
  -- With an empty queue every changed name and every marked output has been visited.
  have hnot : name ∉ (markLoop plan (names.length + plan.rules.length)
      ⟨fun _ => false, names, []⟩).visitedNames := by
    intro hmem
    have hmarked : markAffected plan names i = true := hinv.visited name hmem i hdep
    rw [hi] at hmarked
    cases hmarked
  constructor
  · intro hmem
    have := hinv.inputs name hmem
    rw [hqueue] at this
    exact hnot (this.resolve_right List.not_mem_nil)
  · rintro j rule hrule hj rfl
    have := hinv.affected j rule hrule hj
    rw [hqueue] at this
    exact hnot (this.resolve_right List.not_mem_nil)

end Search

/-! ## Rules as cells -/

section Cells

variable [FloatOps F64 F32]

/-- Evaluation looks at no name that the expression does not mention. -/
theorem eval_congr {vars vars' : Variables F64} (e : Expr F64)
    (h : ∀ name, Mentions name e → vars name = vars' name) : eval vars e = eval vars' e := by
  induction e with
  | literal v => rfl
  | var name => simp only [eval, h name rfl]
  | unary op operand ih => simp only [eval, ih h]
  | binary op left right ihl ihr =>
    simp only [eval, ihl fun name hn => h name (.inl hn), ihr fun name hn => h name (.inr hn)]
  | ite c t e ihc iht ihe =>
    simp only [eval, ihc fun name hn => h name (.inl hn), iht fun name hn => h name (.inr (.inl hn)),
      ihe fun name hn => h name (.inr (.inr hn))]

omit [FloatOps F64 F32] in
/-- A result without the time and the revisions of its evaluation. -/
def Result.unstamped (r : Result F64 F32) : Result F64 F32 :=
  { r with evaluatedAt := 0, configRevision := 0, defaultRouteRevision := 0 }

def cell (rule : CompiledRule F64) : Dataflow.Cell String (Operand F64) (Result F64 F32) where
  output := rule.output
  reads := rule.vars
  result := fun vars => result rule ⟨0, 0, 0⟩ (outcome rule vars)
  publish := fun r => r.toOutcome.operand
  reads_only := by
    intro vars vars' h
    have heval := eval_congr rule.ast fun name hn => h name (rule.complete name hn)
    simp only [outcome, heval]

/-- The loop over the rules is a pass over the cells. -/
theorem evaluateRules_refresh (stamp : Stamp)
    (items : List (CompiledRule F64 × Bool × Result F64 F32)) (vars : Variables F64) :
    Dataflow.refresh (items.map fun x => (cell x.1, x.2.1, x.2.2.unstamped)) vars =
      ((evaluateRules stamp items vars).1,
        (evaluateRules stamp items vars).2.1.map Result.unstamped) := by
  induction items generalizing vars with
  | nil => rfl
  | cons x items ih =>
    obtain ⟨rule, affected, previous⟩ := x
    cases affected with
    | false =>
      simp only [List.map_cons, Dataflow.refresh, evaluateRules, ih]
      rfl
    | true =>
      simp only [List.map_cons, Dataflow.refresh, evaluateRules, ih]
      rfl

theorem cells_ordered {config : Config F64} {compiled : List (CompiledRule F64)} {plan : Plan F64}
    (h : Accepted config compiled plan) :
    Dataflow.Ordered (plan.rules.map (cell : CompiledRule F64 → _)) where
  later := List.pairwise_map.mpr h.ordered.1
  own := by
    intro c hc
    obtain ⟨rule, hrule, rfl⟩ := List.mem_map.mp hc
    exact h.ordered.2 rule hrule

/-! ## Marked rules -/

omit [FloatOps F64 F32] in
theorem mem_marked {r : Runner F64 F32} {affected : Nat → Bool}
    {x : CompiledRule F64 × Bool × Result F64 F32} (hx : x ∈ marked r affected) :
    ∃ i : Nat, r.plan.rules[i]? = some x.1 ∧ r.results[i]? = some x.2.2 ∧ x.2.1 = affected i := by
  obtain ⟨i, hi⟩ := List.mem_iff_getElem?.mp hx
  rw [marked, List.getElem?_zipWith] at hi
  cases hrule : r.plan.rules.zipIdx[i]? with
  | none => simp [hrule] at hi
  | some y =>
    cases hres : r.results[i]? with
    | none => simp [hrule, hres] at hi
    | some previous =>
      simp only [hrule, hres, Option.some.injEq] at hi
      subst hi
      rw [List.getElem?_zipIdx] at hrule
      obtain ⟨rule, hat, rfl⟩ := Option.map_eq_some_iff.mp hrule
      exact ⟨i, hat, hres, by simp⟩

omit [FloatOps F64 F32] in
theorem map_marked {r : Runner F64 F32} (affected : Nat → Bool)
    (hlen : r.results.length = r.plan.rules.length) :
    (marked r affected).map (·.1) = r.plan.rules := by
  apply List.ext_getElem
  · simp [marked, hlen]
  · intro i h1 h2
    simp [marked]

/-- A runner whose operands and results are those of the given inputs. -/
structure Current (plan : Plan F64) (inputs : Inputs F64 F32) (r : Runner F64 F32) : Prop where
  plan_eq : r.plan = plan
  settled : Dataflow.Settled (plan.rules.map (cell : CompiledRule F64 → _))
    (writeInputs (fun _ => none) inputs) r.vars
  results_eq : r.results.map Result.unstamped =
    (plan.rules.map cell).map fun c => c.result r.vars

/-- A pass over marked rules, in terms of the cells. -/
theorem evaluate_eq (r : Runner F64 F32) (affected : Nat → Bool) (stamp : Stamp) :
    (evaluate r affected stamp).1.plan = r.plan ∧
    Dataflow.refresh ((marked r affected).map fun x => (cell x.1, x.2.1, x.2.2.unstamped)) r.vars =
      ((evaluate r affected stamp).1.vars,
        (evaluate r affected stamp).1.results.map Result.unstamped) :=
  ⟨rfl, evaluateRules_refresh stamp _ _⟩

theorem map_cells {r : Runner F64 F32} (affected : Nat → Bool)
    (hlen : r.results.length = r.plan.rules.length) :
    ((marked r affected).map fun x => (cell x.1, x.2.1, x.2.2.unstamped)).map (·.1) =
      r.plan.rules.map cell := by
  rw [List.map_map, ← map_marked affected hlen, List.map_map]
  rfl

/-- A reset does not depend on what the runner held before. -/
theorem reset_runner_current {config : Config F64} {compiled : List (CompiledRule F64)}
    {plan : Plan F64} (h : Accepted config compiled plan) {runner : Runner F64 F32}
    (hrunner : runner.plan = plan) (hresults : runner.results.length = plan.rules.length)
    (inputs : Inputs F64 F32) (stamp : Stamp) :
    Current plan inputs (reset runner inputs stamp).1 := by
  generalize hr : ({ runner with vars := writeInputs (fun _ => none) inputs } : Runner F64 F32) = r
  have hplan : r.plan = plan := by rw [← hr]; exact hrunner
  have hvars : r.vars = writeInputs (fun _ => none) inputs := by rw [← hr]
  have hlen : r.results.length = r.plan.rules.length := by
    rw [hplan, ← hr]
    exact hresults
  have heq : reset runner inputs stamp = evaluate r (fun _ => true) stamp := by
    rw [← hr]; rfl
  have hcells := map_cells (fun _ => true) hlen
  obtain ⟨hp, hrefresh⟩ := evaluate_eq r (fun _ => true) stamp
  obtain ⟨hsettled, hresults⟩ := Dataflow.refresh_all _
    (by rw [hcells, hplan]; exact cells_ordered h)
    (by
      intro x hx
      obtain ⟨y, hy, rfl⟩ := List.mem_map.mp hx
      obtain ⟨i, -, -, hflag⟩ := mem_marked hy
      exact hflag) r.vars
  rw [hrefresh, hcells, hplan] at hsettled hresults
  rw [heq]
  exact ⟨hp.trans hplan, hvars ▸ hsettled, hresults⟩

theorem reset_current {config : Config F64} {compiled : List (CompiledRule F64)} {plan : Plan F64}
    (h : Accepted config compiled plan) (inputs : Inputs F64 F32) (stamp : Stamp) :
    Current plan inputs (reset (newRunner plan) inputs stamp).1 :=
  reset_runner_current h rfl (by simp [newRunner]) inputs stamp

/-! ## Updates -/

theorem writeInputs_apply (vars : Variables F64) (inputs : Inputs F64 F32) (name : String) :
    writeInputs vars inputs name =
      match inputs.lookup name with
      | some input => some (inputOperand name input)
      | none => vars name := by
  obtain ⟨entries, hnodup⟩ := inputs
  show entries.foldl _ vars name = match List.dlookup name entries with | some _ => _ | none => _
  induction entries generalizing vars with
  | nil => rfl
  | cons x rest ih =>
    obtain ⟨key, input⟩ := x
    obtain ⟨hkey, hrest⟩ := List.nodupKeys_cons.mp hnodup
    rw [List.foldl_cons, ih _ hrest]
    by_cases hname : name = key
    · subst hname
      rw [List.dlookup_eq_none.mpr hkey, List.dlookup_cons_eq]
      simp
    · rw [List.dlookup_cons_ne _ _ hname]
      simp [Function.update_of_ne hname]

/-- The input of every name that was written last. -/
def lastWritten (first : Inputs F64 F32) (updates : List (Inputs F64 F32 × Stamp)) :
    Inputs F64 F32 :=
  updates.foldl (fun written u => u.1 ∪ written) first

theorem writeInputs_of_not_mem {vars : Variables F64} {inputs : Inputs F64 F32} {name : String}
    (h : name ∉ inputs) : writeInputs vars inputs name = vars name := by
  rw [writeInputs_apply, AList.lookup_eq_none.mpr h]

theorem writeInputs_union (u inputs : Inputs F64 F32) (vars : Variables F64) :
    writeInputs vars (u ∪ inputs) = writeInputs (writeInputs vars inputs) u := by
  funext name
  by_cases h : name ∈ u
  · obtain ⟨input, hinput⟩ := Option.isSome_iff_exists.mp (AList.lookup_isSome.mpr h)
    rw [writeInputs_apply, writeInputs_apply, AList.lookup_union_left h, hinput]
  · rw [writeInputs_of_not_mem h, writeInputs_apply, writeInputs_apply, AList.lookup_union_right h]

theorem Current.length_eq {plan : Plan F64} {inputs : Inputs F64 F32} {r : Runner F64 F32}
    (hr : Current plan inputs r) : r.results.length = r.plan.rules.length := by
  have h := congrArg List.length hr.results_eq
  rw [hr.plan_eq]
  simpa using h

/-- The result stored for a rule is the one its cell computes. -/
theorem Current.result_eq {plan : Plan F64} {inputs : Inputs F64 F32} {r : Runner F64 F32}
    (hr : Current plan inputs r) {i : Nat} {rule : CompiledRule F64} {res : Result F64 F32}
    (hrule : plan.rules[i]? = some rule) (hres : r.results[i]? = some res) :
    res.unstamped = (cell rule).result r.vars := by
  have h := congrArg (fun l => l[i]?) hr.results_eq
  simpa [hrule, hres] using h

theorem update_current {config : Config F64} {compiled : List (CompiledRule F64)} {plan : Plan F64}
    (h : Accepted config compiled plan) {inputs : Inputs F64 F32} {r : Runner F64 F32}
    (hr : Current plan inputs r) (u : Inputs F64 F32) (stamp : Stamp)
    (hnames : ∀ rule ∈ plan.rules, rule.output ∉ u) :
    Current plan (u ∪ inputs) (update r u stamp).1 := by
  unfold update
  by_cases hempty : u.entries = []
  · have hu : ∀ name, name ∉ u := by
      intro name hname
      rw [AList.mem_keys, AList.keys, hempty] at hname
      cases hname
    have hsame : writeInputs (fun _ => none) (u ∪ inputs) = writeInputs (fun _ => none) inputs := by
      funext name
      rw [writeInputs_union, writeInputs_of_not_mem (hu name)]
    rw [if_pos hempty]
    exact ⟨hr.plan_eq, hsame ▸ hr.settled, hr.results_eq⟩
  rw [if_neg hempty]
  generalize hr' : ({ r with vars := writeInputs r.vars u } : Runner F64 F32) = r'
  have hplan : r'.plan = plan := by rw [← hr']; exact hr.plan_eq
  have hvars : r'.vars = writeInputs r.vars u := by rw [← hr']
  have hresults : r'.results = r.results := by rw [← hr']
  have hlen : r'.results.length = r'.plan.rules.length := by rw [← hr']; exact hr.length_eq
  rw [hr.plan_eq]
  have hcells := map_cells (markAffected plan u.keys) hlen
  rw [hplan] at hcells
  obtain ⟨hp, hrefresh⟩ := evaluate_eq r' (markAffected plan u.keys) stamp
  -- Each marked entry is a rule of the plan at some position, with its previous result.
  have hentry : ∀ x ∈ (marked r' (markAffected plan u.keys)).map
      (fun x => (cell x.1, x.2.1, x.2.2.unstamped)), ∃ (i : Nat) (rule : CompiledRule F64),
      plan.rules[i]? = some rule ∧ x.1 = cell rule ∧ x.2.1 = markAffected plan u.keys i ∧
        x.2.2 = (cell rule).result r.vars := by
    intro x hx
    obtain ⟨y, hy, rfl⟩ := List.mem_map.mp hx
    obtain ⟨i, hrule, hres, hflag⟩ := mem_marked hy
    rw [hplan] at hrule
    rw [hresults] at hres
    exact ⟨i, y.1, hrule, rfl, hflag, hr.result_eq hrule hres⟩
  have hmain := Dataflow.refresh_settled
    ((marked r' (markAffected plan u.keys)).map fun x => (cell x.1, x.2.1, x.2.2.unstamped))
    (by rw [hcells]; exact cells_ordered h) (writeInputs (fun _ => none) inputs)
    (writeInputs (fun _ => none) (u ∪ inputs)) r.vars r'.vars
    (by rw [hcells]; exact hr.settled) ?_ ?_ ?_ ?_
  · rw [hrefresh, hcells] at hmain
    exact ⟨hp.trans hplan, hmain.1, hmain.2⟩
  · intro x hx
    obtain ⟨i, rule, -, hcell, -, hres⟩ := hentry x hx
    rw [hcell, hres]
  · intro k hk
    rw [hcells] at hk
    have hbase := hr.settled.untouched k hk
    rw [hvars, writeInputs_union, writeInputs_apply, writeInputs_apply, hbase]
  · intro x hx
    obtain ⟨i, rule, hrule, hcell, -, -⟩ := hentry x hx
    rw [hcell, hvars]
    exact writeInputs_of_not_mem (hnames rule (List.mem_of_getElem? hrule))
  · intro x hx hflag k hk
    obtain ⟨i, rule, hrule, hcell, hmark, -⟩ := hentry x hx
    rw [hcell] at hk
    have hdep : i ∈ plan.dependents k := by
      rw [h.dependents]
      exact (mem_dependentsOf plan.rules k i).mpr ⟨rule, hrule, hk⟩
    obtain ⟨hnot, hfree⟩ := markAffected_closed u.keys (hmark.symm.trans hflag) hdep
    constructor
    · rw [hvars]
      exact writeInputs_of_not_mem hnot
    · intro y hy hyflag
      obtain ⟨j, other, hother, hycell, hymark, -⟩ := hentry y hy
      rw [hycell]
      exact hfree j other hother (hymark.symm.trans hyflag)

/-- A runner after a reset and some updates. -/
def run (plan : Plan F64) (first : Inputs F64 F32 × Stamp)
    (updates : List (Inputs F64 F32 × Stamp)) : Runner F64 F32 :=
  updates.foldl (fun r u => (update r u.1 u.2).1) (reset (newRunner plan) first.1 first.2).1

theorem run_current {config : Config F64} {compiled : List (CompiledRule F64)} {plan : Plan F64}
    (h : Accepted config compiled plan) (first : Inputs F64 F32 × Stamp)
    (updates : List (Inputs F64 F32 × Stamp))
    (hnames : ∀ u ∈ updates, ∀ rule ∈ plan.rules, rule.output ∉ u.1) :
    Current plan (lastWritten first.1 updates) (run plan first updates) := by
  have hfold : ∀ (r : Runner F64 F32) (inputs : Inputs F64 F32), Current plan inputs r →
      Current plan (lastWritten inputs updates)
        (updates.foldl (fun r u => (update r u.1 u.2).1) r) := by
    induction updates with
    | nil => exact fun r inputs hr => hr
    | cons u updates ih =>
      intro r inputs hr
      obtain ⟨hu, hrest⟩ := List.forall_mem_cons.mp hnames
      exact ih hrest _ _ (update_current h hr u.1 u.2 hu)
  exact hfold _ _ (reset_current h first.1 first.2)

/-- After one reset and any sequence of updates whose names no rule computes, the results are
those of a single reset with the input of every name that was written last. Only the time and
the revisions of the evaluations may differ. -/
theorem incremental_eq_full {config : Config F64} {definitions : Definitions} {plan : Plan F64}
    (hplan : compile config definitions = .ok plan) (first : Inputs F64 F32 × Stamp)
    (updates : List (Inputs F64 F32 × Stamp))
    (hnames : ∀ u ∈ updates, ∀ rule ∈ config.rules, rule.output ∉ u.1) (stamp : Stamp) :
    (run plan first updates).results.map Result.unstamped =
      (reset (newRunner plan) (lastWritten first.1 updates) stamp).1.results.map
        Result.unstamped := by
  obtain ⟨compiled, h⟩ := compile_ok hplan
  have hrun := run_current h first updates fun u hu rule hrule =>
    hnames u hu rule.toRule (h.output_mem hrule)
  have hfull := reset_current h (lastWritten first.1 updates) stamp
  have hvars : (run plan first updates).vars =
      (reset (newRunner plan) (lastWritten first.1 updates) stamp).1.vars :=
    Dataflow.Settled.unique (cells_ordered h) hrun.settled hfull.settled
  rw [hrun.results_eq, hfull.results_eq, hvars]

end Cells

/-! Two chained rules, with an update that reaches both and one that reaches none. -/

def alarmConfig : Config Int where
  rules :=
    [⟨"alarm", .boolean, "total > 10", 2 ^ 64, -2 ^ 64, 0⟩,
      ⟨"total", .uint32, "a + b", 2 ^ 64, -2 ^ 64, 0⟩]
  stateInputs := []

def reading (name : String) (n : UInt32) (time : Time) : Inputs Int Int :=
  AList.singleton name ⟨.uint32, .uint32 n, statusGood, time⟩

theorem incremental_eq_full_alarm : ∃ plan, compile alarmConfig none = .ok plan ∧
    (run plan (reading "a" 4 1 ∪ reading "b" 5 1, ⟨10, 1, 1⟩)
      [(reading "b" 9 2, ⟨11, 1, 1⟩), (reading "c" 1 3, ⟨12, 1, 2⟩)]).results.map Result.unstamped =
      (reset (newRunner plan) (lastWritten (reading "a" 4 1 ∪ reading "b" 5 1)
        [(reading "b" 9 2, ⟨11, 1, 1⟩), (reading "c" 1 3, ⟨12, 1, 2⟩)]) ⟨20, 2, 2⟩).1.results.map
        Result.unstamped := by
  cases h : compile alarmConfig none with
  | error e =>
    have hok : (compile alarmConfig none).isOk = true := by decide +kernel
    rw [h] at hok
    cases hok
  | ok plan => exact ⟨plan, rfl, incremental_eq_full h _ _ (by decide +kernel) _⟩

end RcdServer.Calc.Go
