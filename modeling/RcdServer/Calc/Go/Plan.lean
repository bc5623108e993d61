import Mathlib.Data.List.AList
import Mathlib.Data.List.Basic
import RcdServer.Calc.Go.Evaluate
import RcdServer.Lib.Kahn

/-!
# Configuration and plan of the manager

`config.go`, `state_inputs.go` and `Compile` of `engine.go`. `parseConfig` starts behind the TOML
decoder. `compile` collects the problems of all rules and, when there is none, orders them so
that every rule stands behind the rules whose outputs it reads.
-/
namespace RcdServer.Calc.Go

open FloatOps (lt)
open Lib Lib.Text

variable {F64 F32 : Type}

/-! ## Configuration -/

inductive DataType where
  | boolean | uint32 | float | double | string
  deriving DecidableEq

structure Rule (F64 : Type) where
  output : String
  dataType : DataType
  expression : String
  maxLimit : F64
  minLimit : F64
  defaultValue : F64
  deriving DecidableEq

structure StateTarget where
  sourceID : String
  portID : String
  deviceID : String
  deriving DecidableEq

structure StateInput where
  name : String
  mode : String
  groupID : String
  targets : List StateTarget
  deriving DecidableEq

structure Config (F64 : Type) where
  rules : List (Rule F64)
  stateInputs : List StateInput
  deriving DecidableEq

def maxRules : Nat := 25000
def maxExpressionBytes : Nat := 64 * 1024

inductive ConfigError where
  | tooManyRules
  | badName (index : Nat)
  | unsupportedDataType (name dataType : String)
  | emptyExpression (name : String)
  | expressionTooLong (name : String)
  | badLimits (name : String)
  | tooManyStateInputs
  | invalidStateName (name : String)
  | duplicateStateInput (name : String)
  | invalidMode (name : String)
  | fixedNeedsOneTarget (name : String)
  | groupNeedsTargets (name : String)
  | badTarget (name : String)
  deriving DecidableEq

/-- `unicode.ToLower` as far as a type name can tell: besides the ASCII capitals only the
dotted capital I and the Kelvin sign have an ASCII lower case. -/
def toLower (c : Char) : Char :=
  if c.toNat = 0x130 then 'i' else if c.toNat = 0x212A then 'k' else c.toLower

def normalizeDataType (value : String) : Option DataType :=
  let name := String.ofList ((trim value).toList.map toLower)
  if name = "uint" ∨ name = "u32" ∨ name = "uint32" then some .uint32
  else if name = "bool" ∨ name = "boolean" then some .boolean
  else if name = "float" ∨ name = "f32" then some .float
  else if name = "double" ∨ name = "f64" then some .double
  else none

/-- `^[A-Za-z0-9_]*[A-Za-z_][A-Za-z0-9_]*$`. -/
def stateName (name : String) : Bool :=
  (name.toList.all fun c => isASCIIAlpha c || isASCIIDigit c || c == '_') &&
    name.toList.any fun c => isASCIIAlpha c || c == '_'

/-- The targets of one state input, after the sources already seen. -/
def validTargets : List String → List StateTarget → Bool
  | _, [] => true
  | seen, t :: rest =>
    if t.sourceID = "" ∨ t.portID = "" ∨ t.deviceID = "" ∨ t.sourceID ∈ seen then false
    else validTargets (t.sourceID :: seen) rest

def validateStateInputsFrom : List String → List StateInput → Except ConfigError Unit
  | _, [] => .ok ()
  | names, input :: rest =>
    if input.name.utf8ByteSize > 128 ∨ !stateName input.name ∨ equalFold input.name "IF" ∨
        equalFold input.name "true" ∨ equalFold input.name "false" then
      .error (.invalidStateName input.name)
    else if input.name ∈ names then .error (.duplicateStateInput input.name)
    else if input.mode ≠ "fixed" ∧ input.mode ≠ "group_default" then
      .error (.invalidMode input.name)
    else if input.mode = "fixed" ∧ (input.targets.length ≠ 1 ∨ input.groupID ≠ "") then
      .error (.fixedNeedsOneTarget input.name)
    else if input.mode = "group_default" ∧ (input.groupID = "" ∨ input.targets.length = 0) then
      .error (.groupNeedsTargets input.name)
    else if !validTargets [] input.targets then .error (.badTarget input.name)
    else validateStateInputsFrom (input.name :: names) rest

def validateStateInputs (inputs : List StateInput) : Except ConfigError Unit :=
  if inputs.length > maxRules then .error .tooManyStateInputs
  else validateStateInputsFrom [] inputs

section

variable [FloatOps F64 F32]

def badNumber (x : F64) : Bool := FloatOps.isNaN x || FloatOps.isInf x

def parseRule (index : Nat) (item : RawRule F64) : Except ConfigError (Rule F64) :=
  if trim item.kksCalc = "" ∨
      (item.kksCalc.toList.any fun r => decide (r.toNat < 0x20) || r.toNat == 0x7F) then
    .error (.badName (index + 1))
  else
    match normalizeDataType item.dataType with
    | none => .error (.unsupportedDataType item.kksCalc item.dataType)
    | some dataType =>
      if item.expression = "" then .error (.emptyExpression item.kksCalc)
      else if item.expression.utf8ByteSize > maxExpressionBytes then
        .error (.expressionTooLong item.kksCalc)
      else
        let maxLimit := item.maxLimit.getD FloatOps.largest
        let minLimit := item.minLimit.getD (FloatOps.neg FloatOps.largest)
        let defaultValue := item.defaultValue.getD FloatOps.zero
        if badNumber maxLimit || badNumber minLimit || badNumber defaultValue ||
            lt maxLimit minLimit then
          .error (.badLimits item.kksCalc)
        else .ok ⟨item.kksCalc, dataType, item.expression, maxLimit, minLimit, defaultValue⟩

def parseRules : Nat → List (RawRule F64) → Except ConfigError (List (Rule F64))
  | _, [] => .ok []
  | index, item :: rest => do
    let rule ← parseRule index item
    let rules ← parseRules (index + 1) rest
    .ok (rule :: rules)

/-- `ParseConfig` on the decoded tables. -/
def parseConfig (rules : List (RawRule F64)) (stateInputs : List StateInput) :
    Except ConfigError (Config F64) :=
  if rules.length > maxRules then .error .tooManyRules
  else do
    let rules ← parseRules 0 rules
    validateStateInputs stateInputs
    .ok ⟨rules, stateInputs⟩

end

/-! ## Plan -/

structure InputDefinition where
  dataType : DataType
  valueRank : Int
  deriving DecidableEq

/-- A rule with its syntax tree and the names it can look at, each listed once. -/
structure CompiledRule (F64 : Type) extends Rule F64 where
  ast : Expr F64
  vars : List String
  nodup : vars.Nodup
  complete : ∀ name, Mentions name ast → name ∈ vars

inductive Fault (F64 : Type) where
  | duplicateOutput (first : Nat)
  | conflict (withStateInput : Bool)
  | syntaxError (error : SyntaxError F64)
  | selfReference
  | missingPoint (name : String)
  | nonNumericPoint (name : String)
  | cycle
  deriving DecidableEq

structure Problem (F64 : Type) where
  ruleIndex : Nat
  rule : String
  field : String
  fault : Fault F64
  deriving DecidableEq

inductive CompileError (F64 : Type) where
  | config (error : ConfigError)
  | stateInputConflict (name : String)
  | validation (problems : List (Problem F64))
  deriving DecidableEq

structure Plan (F64 : Type) where
  rules : List (CompiledRule F64)
  dependents : String → List Nat

/-- `map[string]InputDefinition`; `none` for a nil map. -/
abbrev Definitions := Option (AList fun _ : String => InputDefinition)

/-- The given definitions and one for each state input, refusing a name defined twice. -/
def mergeDefinitions : (String → Option InputDefinition) → List StateInput →
    Except String (String → Option InputDefinition)
  | merged, [] => .ok merged
  | merged, input :: rest =>
    if (merged input.name).isSome then .error input.name
    else mergeDefinitions (Function.update merged input.name (some ⟨.uint32, -1⟩)) rest

/-- The rule that produces a name, the first one if several do. -/
def outputs (rules : List (Rule F64)) (name : String) : Option Nat :=
  rules.findIdx? fun r => r.output == name

theorem outputs_some {rules : List (Rule F64)} {name : String} {i : Nat}
    (h : outputs rules name = some i) : ∃ rule, rules[i]? = some rule ∧ rule.output = name := by
  obtain ⟨hi, hname, -⟩ := List.findIdx?_eq_some_iff_getElem.mp h
  exact ⟨rules[i], List.getElem?_eq_getElem hi, by simpa using hname⟩

section

variable [FloatOps F64 F32]

def compileRule (rule : Rule F64) : Parse F64 (CompiledRule F64) :=
  match h : parseExpression rule.expression with
  | .error e => .error e
  | .ok (ast, vars) =>
    .ok ⟨rule, ast, vars, (parseExpression_variables h).1,
      fun name => ((parseExpression_variables h).2 name).mpr⟩

def ruleProblems (config : Config F64) (inputs : String → Option InputDefinition)
    (rule : Rule F64) (index : Nat) : List (Problem F64) :=
  (match outputs config.rules rule.output with
    | some previous =>
      if previous < index then
        [⟨index + 1, rule.output, "kks_calc", .duplicateOutput (previous + 1)⟩]
      else []
    | none => []) ++
  (if (inputs rule.output).isSome then
    [⟨index + 1, rule.output, "kks_calc",
      .conflict (config.stateInputs.any fun input => input.name == rule.output)⟩]
  else []) ++
  (match compileRule rule with
    | .error e => [⟨index + 1, rule.output, "expression", .syntaxError e⟩]
    | .ok compiled =>
      (compiled.vars.filter (· == rule.output)).map fun _ =>
        ⟨index + 1, rule.output, "expression", .selfReference⟩)

def dependencyProblems (config : Config F64) (strictInputs : Bool)
    (inputs : String → Option InputDefinition) (rule : Rule F64) (index : Nat) :
    List (Problem F64) :=
  match compileRule rule with
  | .error _ => []
  | .ok compiled =>
    compiled.vars.flatMap fun dependency =>
      if (outputs config.rules dependency).isSome then []
      else
        match inputs dependency with
        | none =>
          if strictInputs then
            [⟨index + 1, rule.output, "expression", .missingPoint dependency⟩]
          else []
        | some definition =>
          if definition.valueRank ≥ 0 ∨ definition.dataType = .string then
            [⟨index + 1, rule.output, "expression", .nonNumericPoint dependency⟩]
          else []

/-- The rules each rule waits for, by position. -/
def dependencies (rules : List (Rule F64)) (compiled : List (CompiledRule F64)) (index : Nat) :
    List Nat :=
  match compiled[index]? with
  | some rule => rule.vars.filterMap (outputs rules)
  | none => []

/-- For every name the positions of the rules that read it. -/
def dependentsOf (rules : List (CompiledRule F64)) : String → List Nat :=
  rules.zipIdx.foldl
    (fun table x => x.1.vars.foldl
      (fun table dependency => Function.update table dependency (table dependency ++ [x.2])) table)
    fun _ => []

def compile (config : Config F64) (definitions : Definitions) :
    Except (CompileError F64) (Plan F64) :=
  match validateStateInputs config.stateInputs with
  | .error e => .error (.config e)
  | .ok () =>
    let given := fun name => definitions.bind fun table => table.lookup name
    match mergeDefinitions given config.stateInputs with
    | .error name => .error (.stateInputConflict name)
    | .ok inputs =>
      let problems :=
        (config.rules.zipIdx.flatMap fun x => ruleProblems config inputs x.1 x.2) ++
          config.rules.zipIdx.flatMap fun x =>
            dependencyProblems config definitions.isSome inputs x.1 x.2
      if problems ≠ [] then .error (.validation problems)
      else
        let compiled := config.rules.filterMap fun rule => (compileRule rule).toOption
        let sorted := Kahn.sort compiled.length (dependencies config.rules compiled)
        if sorted.order.length ≠ compiled.length then
          .error (.validation ((compiled.zipIdx.filter fun x => sorted.inDegree x.2 != 0).map
            fun x => ⟨x.2 + 1, x.1.output, "expression", .cycle⟩))
        else
          let rules := sorted.order.filterMap fun index => compiled[index]?
          .ok ⟨rules, dependentsOf rules⟩

/-! ## What acceptance gives -/

theorem compileRule_toRule {rule : Rule F64} {compiled : CompiledRule F64}
    (h : compileRule rule = .ok compiled) : compiled.toRule = rule := by
  unfold compileRule at h
  split at h
  · cases h
  · cases h
    rfl

/-- What the absence of problems says about one rule. -/
theorem ruleProblems_nil {config : Config F64} {inputs : String → Option InputDefinition}
    {rule : Rule F64} {index : Nat} (h : ruleProblems config inputs rule index = []) :
    (∀ previous, outputs config.rules rule.output = some previous → index ≤ previous) ∧
      ∃ compiled, compileRule rule = .ok compiled ∧ compiled.output ∉ compiled.vars := by
  unfold ruleProblems at h
  obtain ⟨h, hparse⟩ := List.append_eq_nil_iff.mp h
  obtain ⟨hdup, -⟩ := List.append_eq_nil_iff.mp h
  constructor
  · intro previous hprev
    simp only [hprev] at hdup
    split_ifs at hdup with hlt
    omega
  · cases hc : compileRule rule with
    | error e => simp [hc] at hparse
    | ok compiled =>
      refine ⟨compiled, rfl, fun hmem => ?_⟩
      rw [compileRule_toRule hc] at hmem
      simp only [hc, List.map_eq_nil_iff, List.filter_eq_nil_iff] at hparse
      exact hparse rule.output hmem (by simp)

/-- An accepted configuration: every rule compiles, outputs differ, no rule reads itself, and
the plan holds the rules in an order of `Kahn.sort` that contains all of them. -/
structure Accepted (config : Config F64) (compiled : List (CompiledRule F64)) (plan : Plan F64) :
    Prop where
  compiles : config.rules.map compileRule = compiled.map Except.ok
  distinct : ∀ (i : Nat) (rule : Rule F64), config.rules[i]? = some rule →
    outputs config.rules rule.output = some i
  own : ∀ rule ∈ compiled, rule.output ∉ rule.vars
  full : (Kahn.sort compiled.length (dependencies config.rules compiled)).order.length =
    compiled.length
  rules : plan.rules =
    (Kahn.sort compiled.length (dependencies config.rules compiled)).order.filterMap
      fun index => compiled[index]?
  dependents : plan.dependents = dependentsOf plan.rules

theorem filterMap_compileRule {rules : List (Rule F64)}
    (h : ∀ rule ∈ rules, ∃ compiled, compileRule rule = .ok compiled) :
    rules.map compileRule =
      (rules.filterMap fun rule => (compileRule rule).toOption).map Except.ok := by
  induction rules with
  | nil => rfl
  | cons rule rules ih =>
    obtain ⟨hc, hrest⟩ := List.forall_mem_cons.mp h
    obtain ⟨compiled, hc⟩ := hc
    simp [hc, ih hrest, Except.toOption]

theorem compile_ok {config : Config F64} {definitions : Definitions} {plan : Plan F64}
    (h : compile config definitions = .ok plan) :
    ∃ compiled, Accepted config compiled plan := by
  unfold compile at h
  split at h
  · cases h
  simp only at h
  split at h
  · cases h
  rename_i inputs _
  split_ifs at h with hproblems hfull
  cases h
  obtain ⟨hrules, -⟩ := List.append_eq_nil_iff.mp (not_not.mp hproblems)
  have hnil : ∀ (i : Nat) (rule : Rule F64), config.rules[i]? = some rule →
      ruleProblems config inputs rule i = [] := by
    intro i rule hi
    exact List.flatMap_eq_nil_iff.mp hrules (rule, i) (List.mem_zipIdx_iff_getElem?.mpr hi)
  have hcompiles : ∀ rule ∈ config.rules, ∃ compiled, compileRule rule = .ok compiled ∧
      compiled.output ∉ compiled.vars := by
    intro rule hrule
    obtain ⟨i, hi⟩ := List.mem_iff_getElem?.mp hrule
    exact (ruleProblems_nil (hnil i rule hi)).2
  refine ⟨config.rules.filterMap fun rule => (compileRule rule).toOption, ?_, ?_, ?_, ?_, rfl, rfl⟩
  · exact filterMap_compileRule fun rule hrule => (hcompiles rule hrule).imp fun _ h => h.1
  · intro i rule hi
    -- The rule itself is a candidate, and the check excludes every earlier one.
    cases hout : outputs config.rules rule.output with
    | none =>
      have := List.findIdx?_eq_none_iff.mp hout rule (List.mem_of_getElem? hi)
      simp at this
    | some j =>
      have hle := (ruleProblems_nil (hnil i rule hi)).1 j hout
      obtain ⟨hj, -, hmin⟩ := List.findIdx?_eq_some_iff_getElem.mp hout
      have hge : ¬ i < j := by
        intro hij
        have := hmin i hij
        rw [(List.getElem?_eq_some_iff.mp hi).2] at this
        simp at this
      congr 1
      omega
  · intro compiled hmem
    obtain ⟨rule, hrule, hc⟩ := List.mem_filterMap.mp hmem
    obtain ⟨c, hok, hown⟩ := hcompiles rule hrule
    rw [hok] at hc
    cases hc
    exact hown
  · exact not_not.mp hfull

namespace Accepted

variable {config : Config F64} {compiled : List (CompiledRule F64)} {plan : Plan F64}

theorem toRules (h : Accepted config compiled plan) : compiled.map (·.toRule) = config.rules := by
  have hmap := h.compiles
  have hlen : config.rules.length = compiled.length := by simpa using congrArg List.length hmap
  apply List.ext_getElem
  · simp [hlen]
  · intro i h1 h2
    have hi := congrArg (fun l => l[i]?) hmap
    simp only [List.getElem?_map, List.getElem?_eq_getElem h2,
      List.getElem?_eq_getElem (hlen ▸ h2), Option.map_some, Option.some.injEq] at hi
    rw [List.getElem_map]
    exact compileRule_toRule hi

theorem nodup_outputs (h : Accepted config compiled plan) :
    (config.rules.map (·.output)).Nodup := by
  rw [List.nodup_iff_getElem?_ne_getElem?]
  intro i j hij hj heq
  simp only [List.length_map, List.getElem?_map] at hj heq
  have hi' := h.distinct i _ (List.getElem?_eq_getElem (hij.trans hj))
  have hj' := h.distinct j _ (List.getElem?_eq_getElem hj)
  rw [List.getElem?_eq_getElem hj, List.getElem?_eq_getElem (hij.trans hj)] at heq
  simp only [Option.map_some, Option.some.injEq] at heq
  rw [heq, hj'] at hi'
  have := Option.some.inj hi'
  omega

theorem rule_at (h : Accepted config compiled plan) {i : Nat} {rule : CompiledRule F64}
    (hi : compiled[i]? = some rule) : outputs config.rules rule.output = some i := by
  apply h.distinct
  rw [← h.toRules, List.getElem?_map, hi]
  rfl

theorem wellFormed (h : Accepted config compiled plan) :
    Kahn.WellFormed compiled.length (dependencies config.rules compiled) where
  nodup := by
    intro i
    unfold dependencies
    split
    · rename_i rule _
      apply rule.nodup.filterMap
      intro a b k ha hb
      obtain ⟨r, hr, rfl⟩ := outputs_some ha
      obtain ⟨r', hr', rfl⟩ := outputs_some hb
      rw [Option.some.inj (hr.symm.trans hr')]
    · exact List.nodup_nil
  bound := by
    intro i d hd
    unfold dependencies at hd
    split at hd
    · obtain ⟨name, -, hname⟩ := List.mem_filterMap.mp hd
      obtain ⟨rule, hrule, -⟩ := outputs_some hname
      have hlt := (List.getElem?_eq_some_iff.mp hrule).1
      rwa [← h.toRules, List.length_map] at hlt
    · cases hd

/-- No rule of the plan reads its own output or the output of a later rule. -/
theorem ordered (h : Accepted config compiled plan) :
    plan.rules.Pairwise (fun a b => b.output ∉ a.vars ∧ b.output ≠ a.output) ∧
      ∀ rule ∈ plan.rules, rule.output ∉ rule.vars := by
  have hinv := Kahn.inv_sort h.wellFormed
  have hnodup := (List.nodup_append.mp hinv.nodup).1
  rw [h.rules]
  constructor
  · rw [List.pairwise_filterMap]
    refine (hinv.sorted.pairwise hnodup).1.imp ?_
    rintro i j ⟨hij, hdep⟩ a ha b hb
    have hb' := h.rule_at hb
    constructor
    · intro hmem
      apply hdep
      simp only [dependencies, ha]
      exact List.mem_filterMap.mpr ⟨b.output, hmem, hb'⟩
    · intro heq
      have ha' := h.rule_at ha
      rw [← heq, hb'] at ha'
      exact hij (Option.some.inj ha').symm
  · intro rule hrule
    obtain ⟨i, -, hi⟩ := List.mem_filterMap.mp hrule
    exact h.own rule (List.mem_of_getElem? hi)

theorem output_mem (h : Accepted config compiled plan) {rule : CompiledRule F64}
    (hrule : rule ∈ plan.rules) : rule.toRule ∈ config.rules := by
  rw [h.rules] at hrule
  obtain ⟨i, -, hi⟩ := List.mem_filterMap.mp hrule
  rw [← h.toRules]
  exact List.mem_map_of_mem (List.mem_of_getElem? hi)

/-- The plan leaves out no rule. -/
theorem mem_rules (h : Accepted config compiled plan) {rule : CompiledRule F64}
    (hrule : rule ∈ compiled) : rule ∈ plan.rules := by
  obtain ⟨i, hi⟩ := List.mem_iff_getElem?.mp hrule
  have hlt : i < compiled.length := (List.getElem?_eq_some_iff.mp hi).1
  rw [h.rules]
  apply List.mem_filterMap.mpr
  exact ⟨i, (Kahn.perm_sort h.wellFormed h.full).mem_iff.mpr (List.mem_range.mpr hlt), hi⟩

end Accepted

/-- The table of dependents lists exactly the rules that read a name. -/
theorem mem_dependentsOf (rules : List (CompiledRule F64)) (name : String) (index : Nat) :
    index ∈ dependentsOf rules name ↔ ∃ rule, rules[index]? = some rule ∧ name ∈ rule.vars := by
  have hinner : ∀ (vars : List String) (table : String → List Nat) (i : Nat),
      index ∈ vars.foldl (fun table d => Function.update table d (table d ++ [i])) table name ↔
        index ∈ table name ∨ index = i ∧ name ∈ vars := by
    intro vars
    induction vars with
    | nil => simp
    | cons d vars ih =>
      intro table i
      rw [List.foldl_cons, ih]
      by_cases hd : name = d
      · subst hd
        simp only [Function.update_self, List.mem_append, List.mem_cons]
        tauto
      · simp only [Function.update_of_ne hd, List.mem_cons, hd, false_or]
  have houter : ∀ (l : List (CompiledRule F64 × Nat)) (table : String → List Nat),
      index ∈ l.foldl (fun table x => x.1.vars.foldl
        (fun table d => Function.update table d (table d ++ [x.2])) table) table name ↔
        index ∈ table name ∨ ∃ x ∈ l, x.2 = index ∧ name ∈ x.1.vars := by
    intro l
    induction l with
    | nil => simp
    | cons x l ih =>
      intro table
      rw [List.foldl_cons, ih, hinner]
      simp only [List.exists_mem_cons_iff, or_assoc, eq_comm]
  rw [dependentsOf, houter]
  simp only [List.not_mem_nil, false_or]
  constructor
  · rintro ⟨⟨rule, i⟩, hx, rfl, hname⟩
    exact ⟨rule, List.mem_zipIdx_iff_getElem?.mp hx, hname⟩
  · rintro ⟨rule, hrule, hname⟩
    exact ⟨(rule, index), List.mem_zipIdx_iff_getElem?.mpr hrule, rfl, hname⟩

end

end RcdServer.Calc.Go
