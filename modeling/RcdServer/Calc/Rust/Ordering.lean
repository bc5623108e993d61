import RcdServer.Calc.Rust.Engine
import RcdServer.Calc.SameSyntax

/-!
# The order of the rules

`CalcEngine::new` keeps the first compiled rule of every output, drops those from which a cycle
of references can be reached and puts the others behind the rules they reference.
-/
namespace RcdServer.Calc.Rust

open Lib Lib.Text
open Lib.Kahn (ReachesCycle)
open Go (Mentions)
open Relation

variable {F64 F32 : Type}

/-! ## Compiled rules -/

section

variable [FloatOps F64 F32]

/-- `cr` stems from the first rule that compiles to its output. -/
def FirstCompiled (rules : List (CalcRule F64)) (cr : CompiledRule F64) : Prop :=
  ∃ before rule after, rules = before ++ rule :: after ∧ compileRule rule = .ok cr ∧
    ∀ earlier ∈ before, ∀ other, compileRule earlier = .ok other → other.kksCalc ≠ cr.kksCalc

theorem compileRules_snoc (rules : List (CalcRule F64)) (rule : CalcRule F64) :
    compileRules (rules ++ [rule]) = compileNext (compileRules rules) rule := by
  rw [compileRules, List.foldl_append]
  rfl

theorem mem_compileNext {compiled : List (CompiledRule F64)} {rule : CalcRule F64}
    {cr : CompiledRule F64} :
    cr ∈ compileNext compiled rule ↔ cr ∈ compiled ∨
      compileRule rule = .ok cr ∧ ∀ existing ∈ compiled, existing.kksCalc ≠ cr.kksCalc := by
  unfold compileNext
  cases hrule : compileRule rule with
  | error e => simp
  | ok new =>
    by_cases hrepeat : (compiled.any fun existing => existing.kksCalc == new.kksCalc) = true
    · obtain ⟨existing, hmem, hname⟩ := List.any_eq_true.mp hrepeat
      have hname : existing.kksCalc = new.kksCalc := by simpa using hname
      simp only [hrepeat, if_true]
      constructor
      · exact .inl
      · rintro (hold | ⟨hnew, hfresh⟩)
        · exact hold
        · cases hnew
          exact absurd hname (hfresh existing hmem)
    · have hfresh : ∀ existing ∈ compiled, existing.kksCalc ≠ new.kksCalc := by
        simpa using hrepeat
      simp only [Bool.not_eq_true] at hrepeat
      simp only [hrepeat, Bool.false_eq_true, if_false, List.mem_append, List.mem_singleton]
      constructor
      · rintro (hold | rfl)
        · exact .inl hold
        · exact .inr ⟨rfl, hfresh⟩
      · rintro (hold | ⟨hnew, -⟩)
        · exact .inl hold
        · cases hnew
          exact .inr rfl

/-- The outputs of the list are those of all rules that compile. -/
theorem output_compileRules (rules : List (CalcRule F64)) (name : String) :
    (∃ cr ∈ compileRules rules, cr.kksCalc = name) ↔
      ∃ rule ∈ rules, ∃ cr, compileRule rule = .ok cr ∧ cr.kksCalc = name := by
  induction rules using List.reverseRecOn with
  | nil => simp [compileRules]
  | append_singleton rules rule ih =>
    rw [compileRules_snoc]
    simp only [mem_compileNext, List.mem_append, List.mem_singleton]
    constructor
    · rintro ⟨cr, hold | ⟨hnew, -⟩, hname⟩
      · obtain ⟨earlier, hmem, hcr⟩ := ih.mp ⟨cr, hold, hname⟩
        exact ⟨earlier, .inl hmem, hcr⟩
      · exact ⟨rule, .inr rfl, cr, hnew, hname⟩
    · rintro ⟨r, hmem | rfl, cr, hcr, hname⟩
      · obtain ⟨old, hold, holdName⟩ := ih.mpr ⟨r, hmem, cr, hcr, hname⟩
        exact ⟨old, .inl hold, holdName⟩
      · by_cases hrepeat : ∃ old ∈ compileRules rules, old.kksCalc = name
        · obtain ⟨old, hold, holdName⟩ := hrepeat
          exact ⟨old, .inl hold, holdName⟩
        · push Not at hrepeat
          exact ⟨cr, .inr ⟨hcr, fun old hold => hname ▸ hrepeat old hold⟩, hname⟩

theorem mem_compileRules {rules : List (CalcRule F64)} {cr : CompiledRule F64} :
    cr ∈ compileRules rules ↔ FirstCompiled rules cr := by
  induction rules using List.reverseRecOn with
  | nil => simp [compileRules, FirstCompiled]
  | append_singleton rules rule ih =>
    have hfresh : (∀ old ∈ compileRules rules, old.kksCalc ≠ cr.kksCalc) ↔
        ∀ earlier ∈ rules, ∀ other, compileRule earlier = .ok other →
          other.kksCalc ≠ cr.kksCalc := by
      have hout := not_congr (output_compileRules rules cr.kksCalc)
      push Not at hout
      exact hout
    rw [compileRules_snoc, mem_compileNext, ih, hfresh]
    constructor
    · rintro (⟨before, first, after, rfl, hcr, hfirst⟩ | ⟨hcr, hfirst⟩)
      · exact ⟨before, first, after ++ [rule], by simp, hcr, hfirst⟩
      · exact ⟨rules, rule, [], rfl, hcr, hfirst⟩
    · rintro ⟨before, first, after, heq, hcr, hfirst⟩
      rcases List.eq_nil_or_concat after with rfl | ⟨after, last, rfl⟩
      · obtain ⟨rfl, hlast⟩ := List.append_inj' heq rfl
        obtain rfl : rule = first := by simpa using hlast
        exact .inr ⟨hcr, hfirst⟩
      · have heq' : rules ++ [rule] = (before ++ first :: after) ++ [last] := by simpa using heq
        obtain ⟨rfl, -⟩ := List.append_inj' heq' rfl
        exact .inl ⟨before, first, after, rfl, hcr, hfirst⟩

theorem nodup_compileRules (rules : List (CalcRule F64)) :
    ((compileRules rules).map (·.kksCalc)).Nodup := by
  induction rules using List.reverseRecOn with
  | nil => exact List.nodup_nil
  | append_singleton rules rule ih =>
    rw [compileRules_snoc]
    unfold compileNext
    split
    · exact ih
    · rename_i cr _
      split_ifs with hrepeat
      · exact ih
      · have hfresh : ∀ old ∈ compileRules rules, old.kksCalc ≠ cr.kksCalc := by
          simpa using hrepeat
        rw [List.map_append, List.nodup_append]
        refine ⟨ih, List.nodup_singleton _, ?_⟩
        intro a ha b hb
        obtain ⟨old, hold, rfl⟩ := List.mem_map.mp ha
        obtain rfl : b = cr.kksCalc := by simpa using hb
        exact hfresh old hold

omit [FloatOps F64 F32] in
theorem nodup_extractVariables (ast : Expr F64) : (extractVariables ast).Nodup := by
  rw [extractVariables_eq]
  exact nodup_sortTexts (Go.nodup_collectVariables ast List.nodup_nil)

/-- A compiled rule lists the names that its expression mentions. -/
theorem compileRule_vars {rule : CalcRule F64} {cr : CompiledRule F64}
    (h : compileRule rule = .ok cr) : cr.vars = extractVariables cr.ast := by
  unfold compileRule at h
  split at h
  · cases h
  · split_ifs at h
    split at h
    · cases h
    · split at h
      · cases h
      · simp only at h
        split_ifs at h
        cases h
        rfl

theorem mem_vars {rules : List (CalcRule F64)} {cr : CompiledRule F64}
    (h : cr ∈ compileRules rules) (name : String) : name ∈ cr.vars ↔ Mentions name cr.ast := by
  obtain ⟨_, _, _, _, hcr, _⟩ := mem_compileRules.mp h
  rw [compileRule_vars hcr, extractVariables_eq, mem_sortTexts, Go.mem_collectVariables]
  simp

theorem nodup_vars {rules : List (CalcRule F64)} {cr : CompiledRule F64}
    (h : cr ∈ compileRules rules) : cr.vars.Nodup := by
  obtain ⟨_, _, _, _, hcr, _⟩ := mem_compileRules.mp h
  rw [compileRule_vars hcr]
  exact nodup_extractVariables cr.ast

end

/-! ## Positions -/

section

variable {α : Type} {key : α → String} {l : List α}

/-- Of distinct names a map collected from name to position knows the position. -/
theorem indexTable_eq (hnodup : (l.map key).Nodup) (name : String) :
    l.zipIdx.foldl
      (fun (table : String → Option Nat) x => Function.update table (key x.1) (some x.2))
      (fun _ => none) name = (l.map key).findIdx? (· == name) := by
  have hfold : ∀ (l : List α) (k : Nat) (table : String → Option Nat), (l.map key).Nodup →
      (l.zipIdx k).foldl
        (fun (table : String → Option Nat) x => Function.update table (key x.1) (some x.2))
        table name =
        ((l.map key).findIdx? (· == name)).elim (table name) fun i => some (k + i) := by
    intro l
    induction l with
    | nil => simp
    | cons a l ih =>
      intro k table hnodup
      obtain ⟨hnot, hrest⟩ := List.nodup_cons.mp hnodup
      rw [List.zipIdx_cons, List.foldl_cons, ih _ _ hrest, List.map_cons, List.findIdx?_cons]
      by_cases hname : key a = name
      · subst hname
        have hnone : (l.map key).findIdx? (· == key a) = none := by
          rw [List.findIdx?_eq_none_iff]
          intro x hx
          have hne : x ≠ key a := by
            intro heq
            rw [heq] at hx
            exact hnot hx
          simpa using hne
        simp [hnone]
      · have hne : (key a == name) = false := by simpa using hname
        rw [hne]
        cases (l.map key).findIdx? (· == name) with
        | none => simp [Function.update_of_ne (Ne.symm hname)]
        | some i =>
          simp only [Bool.false_eq_true, if_false, Option.map_some, Option.elim_some,
            Option.some.injEq]
          omega
  rw [hfold l 0 _ hnodup]
  cases (l.map key).findIdx? (· == name) <;> simp

theorem indexTable_some (hnodup : (l.map key).Nodup) {name : String} {i : Nat} :
    l.zipIdx.foldl
      (fun (table : String → Option Nat) x => Function.update table (key x.1) (some x.2))
      (fun _ => none) name = some i ↔ ∃ a, l[i]? = some a ∧ key a = name := by
  rw [indexTable_eq hnodup, List.findIdx?_eq_some_iff_getElem]
  constructor
  · rintro ⟨hlt, hname, -⟩
    have hlt' : i < l.length := by simpa using hlt
    exact ⟨l[i], List.getElem?_eq_getElem hlt', by simpa using hname⟩
  · rintro ⟨a, ha, rfl⟩
    obtain ⟨hlt, rfl⟩ := List.getElem?_eq_some_iff.mp ha
    have hi : i < (l.map key).length := by simpa using hlt
    refine ⟨hi, by simp, ?_⟩
    intro j hj heq
    have hjlt : j < (l.map key).length := hj.trans hi
    have hsame : (l.map key)[j] = (l.map key)[i] := by simpa using heq
    exact absurd (hnodup.getElem_inj_iff.mp hsame) (Nat.ne_of_lt hj)

end

theorem nameToIdx_eq {rcs : List (CompiledRule F64)} (hnodup : (rcs.map (·.kksCalc)).Nodup)
    (name : String) : nameToIdx rcs name = (rcs.map (·.kksCalc)).findIdx? (· == name) :=
  indexTable_eq hnodup name

/-- The map knows the position of every output and nothing else. -/
theorem nameToIdx_some {rcs : List (CompiledRule F64)} (hnodup : (rcs.map (·.kksCalc)).Nodup)
    {name : String} {i : Nat} :
    nameToIdx rcs name = some i ↔ ∃ cr, rcs[i]? = some cr ∧ cr.kksCalc = name :=
  indexTable_some hnodup

section

variable [FloatOps F64 F32] (rules : List (CalcRule F64))

/-- Of two rules that were compiled, the first mentions the output of the second. -/
def References (a b : CompiledRule F64) : Prop :=
  FirstCompiled rules a ∧ FirstCompiled rules b ∧ Mentions b.kksCalc a.ast

variable {rules}

theorem mem_dependencies {i d : Nat} {a : CompiledRule F64} (ha : (compileRules rules)[i]? = some a) :
    d ∈ dependencies (compileRules rules) i ↔
      ∃ b, (compileRules rules)[d]? = some b ∧ References rules a b := by
  have hamem := List.mem_of_getElem? ha
  simp only [dependencies, ha, List.mem_filterMap, nameToIdx_some (nodup_compileRules rules)]
  constructor
  · rintro ⟨name, hname, b, hb, rfl⟩
    exact ⟨b, hb, mem_compileRules.mp hamem, mem_compileRules.mp (List.mem_of_getElem? hb),
      (mem_vars hamem _).mp hname⟩
  · rintro ⟨b, hb, -, -, hmentions⟩
    exact ⟨b.kksCalc, (mem_vars hamem _).mpr hmentions, b, hb, rfl⟩

theorem dependencies_wellFormed (rules : List (CalcRule F64)) :
    Kahn.WellFormed (compileRules rules).length (dependencies (compileRules rules)) where
  nodup := by
    intro i
    unfold dependencies
    split
    · rename_i a ha
      apply (nodup_vars (List.mem_of_getElem? ha)).filterMap
      intro name name' k hname hname'
      obtain ⟨b, hb, rfl⟩ := (nameToIdx_some (nodup_compileRules rules)).mp hname
      obtain ⟨b', hb', rfl⟩ := (nameToIdx_some (nodup_compileRules rules)).mp hname'
      rw [Option.some.inj (hb.symm.trans hb')]
    · exact List.nodup_nil
  bound := by
    intro i d hd
    unfold dependencies at hd
    split at hd
    · obtain ⟨name, -, hname⟩ := List.mem_filterMap.mp hd
      obtain ⟨b, hb, -⟩ := (nameToIdx_some (nodup_compileRules rules)).mp hname
      exact (List.getElem?_eq_some_iff.mp hb).1
    · cases hd

/-! ## Cycles -/

/-- Walks between positions are walks between the rules at these positions. -/
theorem walk_rules {i j : Nat} {a : CompiledRule F64} (ha : (compileRules rules)[i]? = some a)
    (h : ReflTransGen (fun i d => d ∈ dependencies (compileRules rules) i) i j) :
    ∃ b, (compileRules rules)[j]? = some b ∧ ReflTransGen (References rules) a b := by
  induction h with
  | refl => exact ⟨a, ha, .refl⟩
  | tail _ hstep ih =>
    obtain ⟨b, hb, hwalk⟩ := ih
    obtain ⟨c, hc, href⟩ := (mem_dependencies hb).mp hstep
    exact ⟨c, hc, hwalk.tail href⟩

theorem walk_positions {i : Nat} {a b : CompiledRule F64} (ha : (compileRules rules)[i]? = some a)
    (h : ReflTransGen (References rules) a b) :
    ∃ j, (compileRules rules)[j]? = some b ∧
      ReflTransGen (fun i d => d ∈ dependencies (compileRules rules) i) i j := by
  induction h with
  | refl => exact ⟨i, ha, .refl⟩
  | tail _ hstep ih =>
    obtain ⟨j, hb, hwalk⟩ := ih
    obtain ⟨k, hc⟩ := List.mem_iff_getElem?.mp (mem_compileRules.mpr hstep.2.1)
    exact ⟨k, hc, hwalk.tail ((mem_dependencies hb).mpr ⟨_, hc, hstep⟩)⟩

/-- A rule stands at one position only. -/
theorem position_unique {i j : Nat} {a : CompiledRule F64} (hi : (compileRules rules)[i]? = some a)
    (hj : (compileRules rules)[j]? = some a) : i = j := by
  have hindex : ∀ {k}, (compileRules rules)[k]? = some a →
      nameToIdx (compileRules rules) a.kksCalc = some k :=
    fun hk => (nameToIdx_some (nodup_compileRules rules)).mpr ⟨a, hk, rfl⟩
  exact Option.some.inj ((hindex hi).symm.trans (hindex hj))

theorem reachesCycle_iff {i : Nat} {a : CompiledRule F64} (ha : (compileRules rules)[i]? = some a) :
    ReachesCycle (fun i d => d ∈ dependencies (compileRules rules) i) i ↔
      ReachesCycle (References rules) a := by
  constructor
  · rintro ⟨j, hreach, hcycle⟩
    obtain ⟨b, hb, hwalk⟩ := walk_rules ha hreach
    obtain ⟨k, hjk, hkj⟩ := TransGen.head'_iff.mp hcycle
    obtain ⟨c, hc, href⟩ := (mem_dependencies hb).mp hjk
    obtain ⟨b', hb', hback⟩ := walk_rules hc hkj
    obtain rfl : b' = b := Option.some.inj (hb'.symm.trans hb)
    exact ⟨b', hwalk, .head' href hback⟩
  · rintro ⟨b, hreach, hcycle⟩
    obtain ⟨j, hb, hwalk⟩ := walk_positions ha hreach
    obtain ⟨c, href, hback⟩ := TransGen.head'_iff.mp hcycle
    obtain ⟨k, hc⟩ := List.mem_iff_getElem?.mp (mem_compileRules.mpr href.2.1)
    obtain ⟨j', hb', hround⟩ := walk_positions hc hback
    obtain rfl := position_unique hb' hb
    exact ⟨j', hwalk, .head' ((mem_dependencies hb).mpr ⟨c, hc, href⟩) hround⟩

/-! ## The order -/

/-- The rules of the engine stand at the placed positions. -/
theorem mem_rules_iff {a : CompiledRule F64} : a ∈ (CalcEngine.new rules).rules ↔
    FirstCompiled rules a ∧ ¬ ReachesCycle (References rules) a := by
  have hwf := dependencies_wellFormed rules
  have hplaced : a ∈ (CalcEngine.new rules).rules ↔
      ∃ i ∈ (Kahn.sort (compileRules rules).length (dependencies (compileRules rules))).order,
        (compileRules rules)[i]? = some a := List.mem_filterMap
  rw [hplaced, ← mem_compileRules]
  constructor
  · rintro ⟨i, hi, ha⟩
    have hlt := (List.getElem?_eq_some_iff.mp ha).1
    exact ⟨List.mem_of_getElem? ha,
      fun hcycle => (Kahn.mem_order_iff hwf hlt).mp hi ((reachesCycle_iff ha).mpr hcycle)⟩
  · rintro ⟨hmem, hacyclic⟩
    obtain ⟨i, ha⟩ := List.mem_iff_getElem?.mp hmem
    have hlt := (List.getElem?_eq_some_iff.mp ha).1
    exact ⟨i, (Kahn.mem_order_iff hwf hlt).mpr (fun h => hacyclic ((reachesCycle_iff ha).mp h)), ha⟩

theorem nodup_outputs (rules : List (CalcRule F64)) : (CalcEngine.new rules).outputNames.Nodup := by
  have hinv := Kahn.inv_sort (dependencies_wellFormed rules)
  have hnodup : (CalcEngine.new rules).rules.Nodup := by
    apply (List.nodup_append.mp hinv.nodup).1.filterMap
    intro i j a hi hj
    exact position_unique hi hj
  apply hnodup.map_on
  intro a ha b hb hname
  have hcompiled : ∀ c ∈ (CalcEngine.new rules).rules, c ∈ compileRules rules :=
    fun c hc => mem_compileRules.mpr (mem_rules_iff.mp hc).1
  exact List.inj_on_of_nodup_map (nodup_compileRules rules) (hcompiled a ha) (hcompiled b hb) hname

/-- A rule that another references stands before it. -/
theorem references_before {before after : List (CompiledRule F64)} {a b : CompiledRule F64}
    (hrules : (CalcEngine.new rules).rules = before ++ a :: after) (href : References rules a b) :
    b ∈ before := by
  have hsorted := (Kahn.inv_sort (dependencies_wellFormed rules)).sorted
  obtain ⟨l, rest, horder, rfl, hrest⟩ := List.filterMap_eq_append_iff.mp hrules
  obtain ⟨skipped, i, m, rfl, hnone, hi, -⟩ := List.filterMap_eq_cons_iff.mp hrest
  obtain ⟨d, hd⟩ := List.mem_iff_getElem?.mp (mem_compileRules.mpr href.2.1)
  have hdep := (mem_dependencies hi).mpr ⟨b, hd, href⟩
  have hearlier := hsorted (l ++ skipped) i m (by simpa using horder) d hdep
  rcases List.mem_append.mp hearlier with hl | hskipped
  · exact List.mem_filterMap.mpr ⟨d, hl, hd⟩
  · exact absurd (hnone d hskipped) (by simp [hd])

/-- What the engine asks of the outside: every name that its rules mention and none of them
puts out. -/
theorem mem_requiredBaseVariables {name : String} :
    name ∈ (CalcEngine.new rules).requiredBaseVariables ↔
      (∃ a ∈ (CalcEngine.new rules).rules, Mentions name a.ast) ∧
        ∀ b ∈ (CalcEngine.new rules).rules, b.kksCalc ≠ name := by
  have hcompiled : ∀ c ∈ (CalcEngine.new rules).rules, c ∈ compileRules rules :=
    fun c hc => mem_compileRules.mpr (mem_rules_iff.mp hc).1
  have hvars : (∃ a ∈ (CalcEngine.new rules).rules, name ∈ a.vars) ↔
      ∃ a ∈ (CalcEngine.new rules).rules, Mentions name a.ast := by
    constructor
    · rintro ⟨a, ha, hname⟩
      exact ⟨a, ha, (mem_vars (hcompiled a ha) name).mp hname⟩
    · rintro ⟨a, ha, hname⟩
      exact ⟨a, ha, (mem_vars (hcompiled a ha) name).mpr hname⟩
  have hout : name ∉ (CalcEngine.new rules).outputNames ↔
      ∀ b ∈ (CalcEngine.new rules).rules, b.kksCalc ≠ name := by
    simp [CalcEngine.outputNames]
  rw [CalcEngine.requiredBaseVariables, mem_dedupRuns, mem_sortTexts, List.mem_filter,
    List.mem_flatMap, hvars, decide_eq_true_eq, hout]

/-- For every list of rules: the engine keeps the first compiled rule of each output exactly if
no cycle of references can be reached from it, each once and behind all it references, and its
base variables are the mentioned names that it does not compute. -/
theorem ordering_laws (rules : List (CalcRule F64)) :
    (∀ a, a ∈ (CalcEngine.new rules).rules ↔
      FirstCompiled rules a ∧ ¬ ReachesCycle (References rules) a) ∧
    (CalcEngine.new rules).outputNames.Nodup ∧
    (∀ before a after, (CalcEngine.new rules).rules = before ++ a :: after →
      ∀ b ∈ (CalcEngine.new rules).rules, Mentions b.kksCalc a.ast → b ∈ before) ∧
    (CalcEngine.new rules).requiredBaseVariables.Nodup ∧
    ∀ name, name ∈ (CalcEngine.new rules).requiredBaseVariables ↔
      (∃ a ∈ (CalcEngine.new rules).rules, Mentions name a.ast) ∧
        ∀ b ∈ (CalcEngine.new rules).rules, b.kksCalc ≠ name := by
  refine ⟨fun a => mem_rules_iff, nodup_outputs rules, ?_, ?_, fun name => mem_requiredBaseVariables⟩
  · intro before a after hrules b hb hmentions
    have ha : a ∈ (CalcEngine.new rules).rules := by simp [hrules]
    exact references_before hrules ⟨(mem_rules_iff.mp ha).1, (mem_rules_iff.mp hb).1, hmentions⟩
  · exact nodup_dedupRuns (pairwise_sortTexts _)

end

end RcdServer.Calc.Rust
