import Mathlib
import RcdServer.Calc.Incremental
import RcdServer.Calc.Rust.Engine
import RcdServer.Calc.Rust.Ordering
import RcdServer.Calc.SameSyntax
import RcdServer.Calc.SameValues

/-!
# The two calculation engines

From one list of rules the Rust engine and the manager build the same rules in the same order
and, for good inputs, compute the same typed values with the same validity, as long as no shift
by a wide count is executed.
-/
namespace RcdServer.Calc

open Lib Lib.Text
open Protocol (Value)

theorem exists_of_forall₂ {α β : Type} {R : α → β → Prop} {l : List α} {m : List β}
    (h : List.Forall₂ R l m) {a : α} (ha : a ∈ l) : ∃ b ∈ m, R a b := by
  induction h with
  | nil => cases ha
  | cons hab _ ih =>
    rcases List.mem_cons.mp ha with rfl | ha
    · exact ⟨_, List.mem_cons_self, hab⟩
    · obtain ⟨b, hb, hr⟩ := ih ha
      exact ⟨b, List.mem_cons_of_mem _ hb, hr⟩

/-! ## Rules -/

/-- The output type of the manager that a Rust type stands for. -/
def goType : Rust.CalcDataType → Go.DataType
  | .uint => .uint32
  | .bool => .boolean
  | .float => .float
  | .double => .double

/-- A character whose ASCII lower case is a small letter or a digit is an ASCII letter or digit. -/
theorem typeChar_plain {c : Char}
    (h : c.toLower.toNat < 128 ∧ isWhiteSpace c.toLower = false) :
    isWhiteSpace c = false ∧ Go.toLower c = c.toLower := by
  by_cases hup : c.val ≥ 'A'.val ∧ c.val ≤ 'Z'.val
  · have hle : 65 ≤ c.toNat ∧ c.toNat ≤ 90 := by
      simpa [UInt32.le_iff_toNat_le] using hup
    constructor
    · simp only [isWhiteSpace, Bool.or_eq_false_iff, Bool.and_eq_false_iff, decide_eq_false_iff_not,
        beq_eq_false_iff_ne]
      omega
    · rw [Go.toLower, if_neg (by omega), if_neg (by omega)]
  · have hsame : c.toLower = c := by
      rw [Char.toLower, dif_neg hup]
    rw [hsame] at h ⊢
    exact ⟨h.2, by rw [Go.toLower, if_neg (by omega), if_neg (by omega), hsame]⟩

theorem trimChars_eq {l : List Char} (h : ∀ c ∈ l, isWhiteSpace c = false) : trimChars l = l := by
  have hdrop : ∀ m : List Char, (∀ c ∈ m, isWhiteSpace c = false) → m.dropWhile isWhiteSpace = m := by
    intro m hm
    cases m with
    | nil => rfl
    | cons c m => simp [hm c List.mem_cons_self]
  rw [trimChars, hdrop l h, hdrop l.reverse (by simpa using h), List.reverse_reverse]

/-- Type names that the Rust engine knows mean the same to the manager. -/
theorem normalizeDataType_agree {s : String} {t : Rust.CalcDataType}
    (h : Rust.normalizeDataType s = some t) : Go.normalizeDataType s = some (goType t) := by
  have hplain : ∀ name : String, asciiLower s = name →
      (name.toList.all fun c => decide (c.toNat < 128) && !isWhiteSpace c) = true →
      String.ofList ((trim s).toList.map Go.toLower) = name := by
    intro name hname hall
    have hchars : s.toList.map Char.toLower = name.toList := by
      rw [← hname, asciiLower, String.toList_ofList]
    have hc : ∀ c ∈ s.toList, isWhiteSpace c = false ∧ Go.toLower c = c.toLower := by
      intro c hc
      have hmem : c.toLower ∈ name.toList := hchars ▸ List.mem_map_of_mem hc
      have := List.all_eq_true.mp hall _ hmem
      exact typeChar_plain (by simpa using this)
    rw [trim, String.toList_ofList, trimChars_eq fun c hcs => (hc c hcs).1,
      List.map_congr_left fun c hcs => (hc c hcs).2, hchars, String.ofList_toList]
  unfold Rust.normalizeDataType at h
  unfold Go.normalizeDataType
  simp only at h ⊢
  split_ifs at h with h1 h2 h3 h4 <;> cases h
  · rcases h1 with hn | hn | hn <;> rw [hplain _ hn (by decide)] <;> rfl
  · rcases h2 with hn | hn <;> rw [hplain _ hn (by decide)] <;> rfl
  · rcases h3 with hn | hn <;> rw [hplain _ hn (by decide)] <;> rfl
  · rcases h4 with hn | hn <;> rw [hplain _ hn (by decide)] <;> rfl
section

variable {F64 F32 : Type} [FloatOps F64 F32]

/-- A rule compiled by both engines. -/
structure SameRule (rc : Rust.CompiledRule F64) (gc : Go.CompiledRule F64) : Prop where
  name : rc.kksCalc = gc.output
  type : gc.dataType = goType rc.dataType
  ast : rc.ast = gc.ast
  vars : rc.vars = gc.vars
  maxLimit : rc.maxLimit = gc.maxLimit
  minLimit : rc.minLimit = gc.minLimit
  defaultValue : rc.defaultValue = gc.defaultValue

theorem parseRule_ok {index : Nat} {item : RawRule F64} {rule : Go.Rule F64}
    (h : Go.parseRule index item = .ok rule) :
    Go.normalizeDataType item.dataType = some rule.dataType ∧
      rule = ⟨item.kksCalc, rule.dataType, item.expression, (Rust.CalcRule.ofRaw item).maxLimit,
        (Rust.CalcRule.ofRaw item).minLimit, (Rust.CalcRule.ofRaw item).defaultValue⟩ ∧
      (FloatOps.isFinite rule.maxLimit = true ∧ FloatOps.isFinite rule.minLimit = true ∧
        FloatOps.isFinite rule.defaultValue = true ∧
        FloatOps.lt rule.maxLimit rule.minLimit = false) := by
  unfold Go.parseRule at h
  split at h
  · cases h
  · cases htype : Go.normalizeDataType item.dataType with
    | none => simp [htype] at h
    | some dataType =>
      simp only [htype] at h
      split_ifs at h with _ _ hlimits
      cases h
      refine ⟨rfl, rfl, ?_⟩
      simp only [Bool.or_eq_true, not_or, Bool.not_eq_true] at hlimits
      obtain ⟨⟨⟨hmax, hmin⟩, hdefault⟩, hle⟩ := hlimits
      have hfinite : ∀ x : F64, Go.badNumber x = false → FloatOps.isFinite x = true := by
        intro x hx
        simpa [Go.badNumber, FloatOps.isFinite] using hx
      exact ⟨hfinite _ hmax, hfinite _ hmin, hfinite _ hdefault, hle⟩

theorem compileRule_ok {rule : Go.Rule F64} {gc : Go.CompiledRule F64}
    (h : Go.compileRule rule = .ok gc) :
    gc.toRule = rule ∧ Go.parseExpression rule.expression = .ok (gc.ast, gc.vars) := by
  unfold Go.compileRule at h
  split at h
  · cases h
  · rename_i ast vars hparse
    cases h
    exact ⟨rfl, hparse⟩

theorem rust_compileRule_ok {rule : Rust.CalcRule F64} {rc : Rust.CompiledRule F64}
    (h : Rust.compileRule rule = .ok rc) :
    Rust.normalizeDataType rule.dataType ≠ none ∧
      (∃ tokens : List (Token F64), Rust.tokenize rule.expression = .ok tokens) ∧
      rc.kksCalc = rule.kksCalc := by
  unfold Rust.compileRule at h
  split at h
  · cases h
  · rename_i dataType htype
    split_ifs at h
    split at h
    · cases h
    · rename_i tokens htok
      split at h
      · cases h
      · simp only at h
        split_ifs at h
        cases h
        exact ⟨by simp [htype], ⟨tokens, htok⟩, rfl⟩

/-- The texts of a rule that the Rust engine takes as well: a type name that it knows as it
stands, and white space that its tokenizer skips. -/
def Admitted (item : RawRule F64) : Prop :=
  Rust.normalizeDataType item.dataType ≠ none ∧ '\x0b' ∉ item.expression.toList

instance (item : RawRule F64) : Decidable (Admitted item) :=
  inferInstanceAs (Decidable (_ ∧ _))

/-- The Rust engine compiles an admitted rule of the manager to the same rule. -/
theorem compileRule_of_admitted {index : Nat} {item : RawRule F64} {rule : Go.Rule F64}
    {gc : Go.CompiledRule F64} (hload : Go.parseRule index item = .ok rule)
    (hg : Go.compileRule rule = .ok gc) (hown : gc.output ∉ gc.vars) (hitem : Admitted item) :
    ∃ rc, Rust.compileRule (Rust.CalcRule.ofRaw item) = .ok rc ∧ SameRule rc gc := by
  obtain ⟨htype, hrule, hmax, hmin, hdefault, hle⟩ := parseRule_ok hload
  obtain ⟨hgc, hparse⟩ := compileRule_ok hg
  obtain ⟨dataType, hdata⟩ := Option.ne_none_iff_exists'.mp hitem.1
  have hexpr : rule.expression = item.expression := by rw [hrule]
  rw [hexpr] at hparse
  obtain ⟨tokens, htok⟩ := (tokenize_admits_iff hparse).mpr hitem.2
  obtain ⟨hast, hvars⟩ := expression_agree hparse htok
  have hname : gc.output = item.kksCalc := by rw [hgc, hrule]
  rw [hname, ← hvars] at hown
  rw [hrule] at hmax hmin hdefault hle
  refine ⟨⟨item.kksCalc, dataType, item.expression, gc.ast, Rust.extractVariables gc.ast,
    (Rust.CalcRule.ofRaw item).maxLimit, (Rust.CalcRule.ofRaw item).minLimit,
    (Rust.CalcRule.ofRaw item).defaultValue⟩, ?_, ?_⟩
  · unfold Rust.compileRule
    simp only [show (Rust.CalcRule.ofRaw item).dataType = item.dataType from rfl,
      show (Rust.CalcRule.ofRaw item).expression = item.expression from rfl,
      show (Rust.CalcRule.ofRaw item).kksCalc = item.kksCalc from rfl, hdata, hmax, hmin, hdefault,
      hle, htok, hast, hown, Bool.not_true, Bool.or_self, Bool.false_eq_true, if_false]
  · refine ⟨hname.symm, ?_, rfl, hvars, ?_, ?_, ?_⟩
    · rw [hgc]
      exact Option.some.inj (htype.symm.trans (normalizeDataType_agree hdata))
    · rw [hgc, hrule]
    · rw [hgc, hrule]
    · rw [hgc, hrule]

/-- What the Rust engine compiles is admitted. -/
theorem admitted_of_compileRule {index : Nat} {item : RawRule F64} {rule : Go.Rule F64}
    {gc : Go.CompiledRule F64} {rc : Rust.CompiledRule F64}
    (hload : Go.parseRule index item = .ok rule) (hg : Go.compileRule rule = .ok gc)
    (hr : Rust.compileRule (Rust.CalcRule.ofRaw item) = .ok rc) : Admitted item := by
  obtain ⟨-, hrule, -⟩ := parseRule_ok hload
  obtain ⟨-, hparse⟩ := compileRule_ok hg
  have hexpr : rule.expression = item.expression := by rw [hrule]
  rw [hexpr] at hparse
  obtain ⟨htype, ⟨tokens, htok⟩, -⟩ := rust_compileRule_ok hr
  exact ⟨htype, (tokenize_admits_iff hparse).mp ⟨tokens, htok⟩⟩

/-- One configured rule, as the manager has loaded and compiled it. -/
def Loaded (item : RawRule F64) (gc : Go.CompiledRule F64) : Prop :=
  ∃ index rule, Go.parseRule index item = .ok rule ∧ Go.compileRule rule = .ok gc

theorem loaded {index : Nat} {raw : List (RawRule F64)} {rules : List (Go.Rule F64)}
    {compiled : List (Go.CompiledRule F64)} (hload : Go.parseRules index raw = .ok rules)
    (hg : rules.map Go.compileRule = compiled.map Except.ok) :
    List.Forall₂ Loaded raw compiled := by
  induction raw generalizing index rules compiled with
  | nil =>
    cases hload
    obtain rfl : compiled = [] := by simpa using hg.symm
    exact .nil
  | cons item raw ih =>
    rw [Go.parseRules] at hload
    cases hrule : Go.parseRule index item with
    | error e => simp [hrule, bind, Except.bind] at hload
    | ok rule =>
      cases hmore : Go.parseRules (index + 1) raw with
      | error e => simp [hrule, hmore, bind, Except.bind] at hload
      | ok more =>
        simp only [hrule, hmore, bind, Except.bind] at hload
        cases hload
        cases compiled with
        | nil => cases hg
        | cons gc compiled =>
          obtain ⟨hgc, hgs⟩ := List.cons.inj hg
          exact .cons ⟨index, rule, hrule, hgc⟩ (ih hmore hgs)

/-- The rules of an accepted configuration, as both engines compile them. -/
theorem sameRules {raw : List (RawRule F64)} {compiled : List (Go.CompiledRule F64)}
    (h : List.Forall₂ Loaded raw compiled) (hown : ∀ gc ∈ compiled, gc.output ∉ gc.vars)
    (htexts : ∀ item ∈ raw, Admitted item) :
    ∃ rcs, (raw.map Rust.CalcRule.ofRaw).map Rust.compileRule = rcs.map Except.ok ∧
      List.Forall₂ SameRule rcs compiled := by
  induction h with
  | nil => exact ⟨[], rfl, .nil⟩
  | cons hab _ ih =>
    obtain ⟨index, rule, hrule, hgc⟩ := hab
    obtain ⟨hitem, hitems⟩ := List.forall_mem_cons.mp htexts
    obtain ⟨hgown, hrest⟩ := List.forall_mem_cons.mp hown
    obtain ⟨rc, hrc, hsame⟩ := compileRule_of_admitted hrule hgc hgown hitem
    obtain ⟨rcs, hrcs, hall⟩ := ih hrest hitems
    exact ⟨rc :: rcs, by simp [hrc, hrcs], .cons hsame hall⟩

/-! ## Order -/

theorem compileRules_eq {rules : List (Rust.CalcRule F64)} {rcs : List (Rust.CompiledRule F64)}
    (h : rules.map Rust.compileRule = rcs.map Except.ok) (hnodup : (rcs.map (·.kksCalc)).Nodup) :
    Rust.compileRules rules = rcs := by
  have hfold : ∀ (rules : List (Rust.CalcRule F64)) (rcs acc : List (Rust.CompiledRule F64)),
      rules.map Rust.compileRule = rcs.map Except.ok → ((acc ++ rcs).map (·.kksCalc)).Nodup →
      rules.foldl Rust.compileNext acc = acc ++ rcs := by
    intro rules
    induction rules with
    | nil =>
      intro rcs acc h _
      obtain rfl : rcs = [] := by simpa using h.symm
      simp
    | cons rule rules ih =>
      intro rcs acc h hnodup
      cases rcs with
      | nil => cases h
      | cons rc rcs =>
        obtain ⟨hrc, hrest⟩ := List.cons.inj h
        have hfresh : (acc.any fun existing => existing.kksCalc == rc.kksCalc) = false := by
          rw [List.any_eq_false]
          intro existing hmem heq
          rw [List.map_append, List.nodup_append] at hnodup
          exact hnodup.2.2 existing.kksCalc (List.mem_map.mpr ⟨existing, hmem, rfl⟩) rc.kksCalc
            (by simp) (by simpa using heq)
        have hnext : Rust.compileNext acc rule = acc ++ [rc] := by
          simp only [Rust.compileNext, hrc, hfresh, Bool.false_eq_true, if_false]
        rw [List.foldl_cons, hnext, ih rcs (acc ++ [rc]) hrest (by simpa using hnodup)]
        simp
  exact hfold rules rcs [] h hnodup

theorem names_eq {rcs : List (Rust.CompiledRule F64)} {gcs : List (Go.CompiledRule F64)}
    (h : List.Forall₂ SameRule rcs gcs) : rcs.map (·.kksCalc) = gcs.map (·.output) := by
  induction h with
  | nil => rfl
  | cons hab _ ih => rw [List.map_cons, List.map_cons, hab.name, ih]

theorem getElem?_same {rcs : List (Rust.CompiledRule F64)} {gcs : List (Go.CompiledRule F64)}
    (h : List.Forall₂ SameRule rcs gcs) (i : Nat) :
    (rcs[i]? = none ∧ gcs[i]? = none) ∨
      ∃ rc gc, rcs[i]? = some rc ∧ gcs[i]? = some gc ∧ SameRule rc gc := by
  induction h generalizing i with
  | nil => simp
  | cons hab _ ih =>
    cases i with
    | zero => exact .inr ⟨_, _, rfl, rfl, hab⟩
    | succ i => simpa using ih i

/-- The engine evaluates the rules of the plan in the order of the plan. -/
theorem sameOrder {config : Go.Config F64} {compiled : List (Go.CompiledRule F64)}
    {plan : Go.Plan F64} (hplan : Go.Accepted config compiled plan)
    {rcs : List (Rust.CompiledRule F64)} (h : List.Forall₂ SameRule rcs compiled) :
    List.Forall₂ SameRule (Rust.topologicalSort rcs) plan.rules := by
  have hnames : rcs.map (·.kksCalc) = config.rules.map (·.output) := by
    rw [names_eq h, ← hplan.toRules, List.map_map]
    rfl
  have hindex : Rust.nameToIdx rcs = Go.outputs config.rules := by
    funext name
    rw [Rust.nameToIdx_eq (hnames ▸ hplan.nodup_outputs), hnames, Go.outputs, List.findIdx?_map]
    rfl
  have hdeps : Rust.dependencies rcs = Go.dependencies config.rules compiled := by
    funext i
    rcases getElem?_same h i with ⟨hrc, hgc⟩ | ⟨rc, gc, hrc, hgc, hsame⟩
    · simp only [Rust.dependencies, Go.dependencies, hrc, hgc]
    · simp only [Rust.dependencies, Go.dependencies, hrc, hgc, hindex, hsame.vars]
  rw [Rust.topologicalSort, hplan.rules, hdeps, h.length_eq]
  generalize (Kahn.sort compiled.length (Go.dependencies config.rules compiled)).order = order
  induction order with
  | nil => exact .nil
  | cons i order ih =>
    rcases getElem?_same h i with ⟨hrc, hgc⟩ | ⟨rc, gc, hrc, hgc, hsame⟩
    · simpa [hrc, hgc] using ih
    · simpa [hrc, hgc] using ⟨hsame, ih⟩

/-! ## One rule -/

omit [FloatOps F64 F32] in
/-- A typed value of the Rust engine as the manager holds it. -/
def toDomain : Value F32 F64 → Go.DomainValue F64 F32
  | .uint n => .uint32 n
  | .bool b => .bool b
  | .float x => .float32 x
  | .double x => .float64 x

theorem domainValue_toDomain (v : Value F32 F64) :
    Go.domainValue (toDomain v) = Rust.fromModelValue v := by
  cases v <;> rfl

/-- Saturation: the comparisons of the manager and the saturating cast of the Rust engine. -/
theorem toUInt32_agree (laws : FloatOps.Lawful F64 F32) (x : F64) :
    FloatOps.toUInt32 (FloatOps.fmax x FloatOps.zero) =
      if FloatOps.lt x FloatOps.zero then 0
      else if FloatOps.lt (FloatOps.ofInt64 0xFFFFFFFF) x then 0xFFFFFFFF
      else FloatOps.toUInt32 x := by
  unfold FloatOps.fmax
  by_cases hnan : FloatOps.isNaN x = true
  · rw [if_pos hnan, laws.toUInt32_zero]
    split_ifs with hneg hlarge
    · rfl
    · have hboth := (laws.toUInt32_nan x hnan).symm.trans (laws.toUInt32_large x hlarge)
      exact absurd hboth (by decide)
    · exact (laws.toUInt32_nan x hnan).symm
  · rw [if_neg hnan]
    split_ifs with hneg hlarge
    · exact laws.toUInt32_zero
    · exact laws.toUInt32_large x hlarge
    · rfl

theorem typedValue_agree (laws : FloatOps.Lawful F64 F32) {rc : Rust.CompiledRule F64}
    {gc : Go.CompiledRule F64} (h : SameRule rc gc) (v : EvalValue F64) :
    Go.convertOutput v gc.toRule = toDomain (Rust.typedValue rc v) := by
  unfold Go.convertOutput Rust.typedValue FloatOps.clamp
  rw [asFloat_eq, h.minLimit, h.maxLimit, h.type]
  simp only
  generalize hc : (if FloatOps.lt gc.maxLimit
      (if FloatOps.lt (Rust.asF64 v) gc.minLimit then gc.minLimit else Rust.asF64 v) = true
    then gc.maxLimit
    else if FloatOps.lt (Rust.asF64 v) gc.minLimit = true then gc.minLimit else Rust.asF64 v) = c
  cases rc.dataType with
  | uint =>
    simp only [goType, toDomain, toUInt32_agree laws]
    split_ifs <;> rfl
  | bool =>
    simp only [goType]
    cases v with
    | int n => rfl
    | float x => rfl
    | bool b =>
      split_ifs with heq
      · -- The clamped number equals the truth value's own number.
        cases b with
        | true => simp [toDomain, laws.one_ne_zero c heq]
        | false =>
          have hz : FloatOps.eq c FloatOps.zero = true := heq
          simp [toDomain, hz]
      · rfl
  | float =>
    simp only [goType]
    by_cases hbig : FloatOps.lt FloatOps.wideLargest32 c = true
    · simp [hbig, laws.largest32_not_lt, laws.narrow_largest32, toDomain]
    · by_cases hsmall : FloatOps.lt c (FloatOps.neg FloatOps.wideLargest32) = true
      · simp [hbig, hsmall, laws.narrow_neg_largest32, toDomain]
      · simp [hbig, hsmall, toDomain]
  | double => rfl

/-- What one evaluation of a rule gives, compared. -/
theorem outcome_agree (laws : FloatOps.Lawful F64 F32) {rc : Rust.CompiledRule F64}
    {gc : Go.CompiledRule F64} (h : SameRule rc gc) {goVars : Go.Variables F64}
    {rustVars : Rust.Variables F64} {validity : Rust.Validity}
    (hvars : SameVars goVars rustVars validity) (hshift : reachesWideShift goVars gc.ast = false) :
    (Go.outcome gc goVars).value = toDomain (Rust.evaluateRule rc rustVars validity).1 ∧
      Go.isGood (Go.outcome gc goVars).statusCode = (Rust.evaluateRule rc rustVars validity).2 ∧
      Trusted (Go.outcome gc goVars).statusCode := by
  have hbad : Go.isGood Go.statusBadConfigurationError = false := by decide
  unfold Go.outcome Rust.evaluateRule
  rw [h.ast]
  rcases (eval_agree laws hvars gc.ast hshift).cases with ⟨e, o, err, hr, hg⟩ | ⟨o, hr, hg, htrust⟩
  · simp only [hr, hg, Option.isSome_some, true_or, if_true]
    refine ⟨?_, ?_, .inr rfl⟩
    · rw [typedValue_agree laws h, ← h.defaultValue]
      split_ifs <;> rfl
    · rw [hbad]
      split_ifs <;> rfl
  · have hinvalid : Go.isNonFinite o.value = Rust.isInvalidFloat o.value := by
      cases o.value <;> rfl
    simp only [hr, hg, Option.isSome_none, Bool.false_eq_true, false_or, hinvalid]
    cases hnf : Rust.isInvalidFloat o.value with
    | true =>
      simp only [if_true]
      exact ⟨by rw [typedValue_agree laws h, ← h.defaultValue], hbad, .inr rfl⟩
    | false =>
      simp only [Bool.false_eq_true, if_false]
      exact ⟨typedValue_agree laws h o.value, trivial, htrust⟩

/-! ## One cycle -/

/-- No rule, evaluated after those before it, executes a shift on which the engines differ. -/
def narrowShifts : List (Go.CompiledRule F64) → Go.Variables F64 → Bool
  | [], _ => true
  | rule :: rest, vars =>
    !reachesWideShift vars rule.ast &&
      narrowShifts rest (Function.update vars rule.output
        (some (Go.outcome rule vars : Go.Outcome F64 F32).operand))

theorem sameVars_update {goVars : Go.Variables F64} {rustVars : Rust.Variables F64}
    {validity : Rust.Validity} (hvars : SameVars goVars rustVars validity) (name : String)
    {o : Go.Operand F64} (htrust : Trusted o.status) :
    SameVars (Function.update goVars name (some o)) (Function.update rustVars name (some o.value))
      (Function.update validity name (some (Go.isGood o.status))) := by
  intro k
  by_cases hk : k = name
  · subst hk
    simp [htrust]
  · simpa [Function.update_of_ne hk] using hvars k

/-- One pass of both engines over the same rules. -/
theorem cycle_agree (laws : FloatOps.Lawful F64 F32) (stamp : Go.Stamp)
    {rcs : List (Rust.CompiledRule F64)}
    {items : List (Go.CompiledRule F64 × Bool × Go.Result F64 F32)}
    (h : List.Forall₂ SameRule rcs (items.map (·.1))) (hall : ∀ x ∈ items, x.2.1 = true)
    {goVars : Go.Variables F64} {rustVars : Rust.Variables F64} {validity : Rust.Validity}
    (hvars : SameVars goVars rustVars validity)
    (hshift : narrowShifts (items.map (·.1)) goVars = true) :
    (Rust.runRules rcs rustVars validity).map (fun x => (x.1, toDomain x.2.1, x.2.2)) =
      (Go.evaluateRules stamp items goVars).2.1.map
        fun r => (r.nodeID, r.value, Go.isGood r.statusCode) := by
  induction items generalizing rcs goVars rustVars validity with
  | nil =>
    cases h
    rfl
  | cons x items ih =>
    obtain ⟨gc, flag, previous⟩ := x
    obtain ⟨hflag, hrest⟩ := List.forall_mem_cons.mp hall
    obtain rfl : flag = true := hflag
    cases h with
    | cons hsame htail =>
      rename_i rc rcs
      simp only [List.map_cons, narrowShifts, Bool.and_eq_true, Bool.not_eq_true'] at hshift
      obtain ⟨hvalue, hgood, htrust⟩ := outcome_agree laws hsame hvars hshift.1
      have hnext := sameVars_update hvars gc.output
        (o := (Go.outcome gc goVars : Go.Outcome F64 F32).operand) htrust
      have hoperand : ((Go.outcome gc goVars : Go.Outcome F64 F32).operand).value =
          Rust.fromModelValue (Rust.evaluateRule rc rustVars validity).1 := by
        show Go.domainValue _ = _
        rw [hvalue, domainValue_toDomain]
      have hstatus : Go.isGood ((Go.outcome gc goVars : Go.Outcome F64 F32).operand).status =
          (Rust.evaluateRule rc rustVars validity).2 := hgood
      rw [hoperand, hstatus, ← hsame.name] at hnext
      rw [← hsame.name] at hshift
      have hih := ih htail hrest hnext hshift.2
      simp only [Rust.runRules, Go.evaluateRules, Bool.not_true, Bool.false_eq_true, if_false,
        List.map_cons]
      rw [hih, hsame.name]
      simp only [Go.result, hvalue, hgood]

/-! ## Good inputs -/

/-- A value of a point with a good status. -/
structure GoodReading (F64 F32 : Type) where
  type : Go.DataType
  value : Value F32 F64
  statusCode : Go.StatusCode
  good : Go.isGood statusCode = true
  sourceTimestamp : Go.Time

abbrev Readings (F64 F32 : Type) := AList fun _ : String => GoodReading F64 F32

omit [FloatOps F64 F32] in
/-- The readings as inputs of the manager's runner. -/
def goInputs (readings : Readings F64 F32) : Go.Inputs F64 F32 where
  entries := readings.entries.map
    (.map id fun _ r => ⟨r.type, toDomain r.value, r.statusCode, r.sourceTimestamp⟩)
  nodupKeys := List.NodupKeys.map₂ _ _ readings.nodupKeys

/-- The readings as variables of the Rust engine, and their validity. -/
def rustVariables (readings : Readings F64 F32) : Rust.Variables F64 :=
  fun name => (readings.lookup name).map fun r => Rust.fromModelValue r.value

omit [FloatOps F64 F32] in
def rustValidity (readings : Readings F64 F32) : Rust.Validity :=
  fun name => (readings.lookup name).map fun _ => true

/-- The operands of the manager at the start of a reset. -/
def startVars (readings : Readings F64 F32) : Go.Variables F64 :=
  Go.writeInputs (fun _ => none) (goInputs readings)

theorem sameVars_start (readings : Readings F64 F32) :
    SameVars (startVars readings) (rustVariables readings) (rustValidity readings) := by
  intro name
  have hlookup : (goInputs readings).lookup name = (readings.lookup name).map
      fun r => ⟨r.type, toDomain r.value, r.statusCode, r.sourceTimestamp⟩ :=
    List.dlookup_map₂ name
  rw [startVars, Go.writeInputs_apply, hlookup, rustVariables, rustValidity]
  cases readings.lookup name with
  | none => rfl
  | some r =>
    have hcode : Go.baseCode r.statusCode ≠ Go.statusBadNoCommunication :=
      baseCode_ne_of_isGood r.good (by decide)
    simp only [Option.map_some, Go.inputOperand, if_neg hcode, domainValue_toDomain, r.good]
    exact ⟨trivial, trivial, .inl r.good⟩

/-! ## The engines -/

/-- Both engines evaluate the same rules in the same order, and a cycle gives every output the
same typed value, valid exactly when its status is good. -/
structure EnginesAgree (engine : Rust.CalcEngine F64) (plan : Go.Plan F64)
    (readings : Readings F64 F32) (stamp : Go.Stamp) : Prop where
  rules : List.Forall₂ SameRule engine.rules plan.rules
  values : (engine.runCycle (rustVariables readings) : List (String × Value F32 F64)).map
      (fun r => (r.1, toDomain r.2)) =
    (Go.reset (Go.newRunner plan) (goInputs readings) stamp).1.results.map
      fun r => (r.nodeID, r.value)
  validity : (engine.runCycleWithQuality (rustVariables readings) (rustValidity readings) :
      List (String × Value F32 F64 × Bool)).map (fun r => (r.1, r.2.2)) =
    (Go.reset (Go.newRunner plan) (goInputs readings) stamp).1.results.map
      fun r => (r.nodeID, Go.isGood r.statusCode)

/-- A cycle of the Rust engine and a reset of the manager's runner over the same rules. -/
theorem reset_agree (laws : FloatOps.Lawful F64 F32) {engine : Rust.CalcEngine F64}
    {plan : Go.Plan F64} (hrules : List.Forall₂ SameRule engine.rules plan.rules)
    (readings : Readings F64 F32) (stamp : Go.Stamp)
    (hshift : narrowShifts plan.rules (startVars readings) = true) :
    (engine.runCycleWithQuality (rustVariables readings) (rustValidity readings)).map
        (fun x => (x.1, toDomain x.2.1, x.2.2)) =
      (Go.reset (Go.newRunner plan) (goInputs readings) stamp).1.results.map
        fun r => (r.nodeID, r.value, Go.isGood r.statusCode) := by
  generalize hr : ({ (Go.newRunner plan : Go.Runner F64 F32) with
    vars := startVars readings } : Go.Runner F64 F32) = r
  have hplan : r.plan = plan := by rw [← hr]; rfl
  have hvars : r.vars = startVars readings := by rw [← hr]
  have hlen : r.results.length = r.plan.rules.length := by rw [← hr]; simp [Go.newRunner]
  have hreset : Go.reset (Go.newRunner plan) (goInputs readings) stamp =
      Go.evaluate r (fun _ => true) stamp := by
    rw [← hr]
    rfl
  have hitems : (Go.marked r fun _ => true).map (·.1) = plan.rules := by
    rw [Go.map_marked _ hlen, hplan]
  rw [← hitems] at hrules hshift
  have hall : ∀ x ∈ Go.marked r fun _ => true, x.2.1 = true := by
    intro x hx
    obtain ⟨i, -, -, hflag⟩ := Go.mem_marked hx
    exact hflag
  rw [hreset]
  show (Rust.runRules engine.rules _ _).map _ = _
  rw [cycle_agree laws stamp hrules hall (sameVars_start readings) hshift, ← hvars]
  rfl

theorem parseConfig_ok {raw : List (RawRule F64)} {stateInputs : List Go.StateInput}
    {config : Go.Config F64} (h : Go.parseConfig raw stateInputs = .ok config) :
    Go.parseRules 0 raw = .ok config.rules := by
  unfold Go.parseConfig at h
  split_ifs at h
  cases hrules : Go.parseRules 0 raw with
  | error e => simp [hrules, bind, Except.bind] at h
  | ok rules =>
    cases hstate : Go.validateStateInputs stateInputs with
    | error e => simp [hrules, hstate, bind, Except.bind] at h
    | ok _ =>
      simp only [hrules, hstate, bind, Except.bind] at h
      cases h
      rfl

theorem engine_rules {raw : List (RawRule F64)} {config : Go.Config F64}
    {compiled : List (Go.CompiledRule F64)} {plan : Go.Plan F64}
    (hplan : Go.Accepted config compiled plan) (hload : List.Forall₂ Loaded raw compiled)
    (htexts : ∀ item ∈ raw, Admitted item) :
    List.Forall₂ SameRule (Rust.CalcEngine.new (raw.map Rust.CalcRule.ofRaw)).rules plan.rules := by
  obtain ⟨rcs, hrcs, hsame⟩ := sameRules hload hplan.own htexts
  have hnodup : (rcs.map (·.kksCalc)).Nodup := by
    have hnames : rcs.map (·.kksCalc) = config.rules.map (·.output) := by
      rw [names_eq hsame, ← hplan.toRules, List.map_map]
      rfl
    rw [hnames]
    exact hplan.nodup_outputs
  rw [Rust.CalcEngine.new, compileRules_eq hrcs hnodup]
  exact sameOrder hplan hsame

/-- A rule of the engine stems from a configured rule that compiles. -/
theorem mem_engine_rules {rules : List (Rust.CalcRule F64)} {rc : Rust.CompiledRule F64}
    (h : rc ∈ (Rust.CalcEngine.new rules).rules) : ∃ rule ∈ rules, Rust.compileRule rule = .ok rc := by
  obtain ⟨before, rule, after, rfl, hok, -⟩ := (Rust.mem_rules_iff.mp h).1
  exact ⟨rule, by simp, hok⟩

/-- Every rule of the plan has its counterpart in the engine only if each configured rule is
admitted: outputs are distinct, so no other rule can stand in for one that was skipped. -/
theorem admitted_of_rules {raw : List (RawRule F64)} {config : Go.Config F64}
    {compiled : List (Go.CompiledRule F64)} {plan : Go.Plan F64}
    (hplan : Go.Accepted config compiled plan) (hload : List.Forall₂ Loaded raw compiled)
    (hrules : List.Forall₂ SameRule (Rust.CalcEngine.new (raw.map Rust.CalcRule.ofRaw)).rules
      plan.rules) : ∀ item ∈ raw, Admitted item := by
  have hnames : raw.map (·.kksCalc) = config.rules.map (·.output) := by
    rw [← hplan.toRules, List.map_map]
    clear hplan hrules
    induction hload with
    | nil => rfl
    | cons hab _ ih =>
      obtain ⟨index, rule, hrule, hgc⟩ := hab
      have hout := congrArg Go.Rule.output (parseRule_ok hrule).2.1
      rw [← (compileRule_ok hgc).1] at hout
      rw [List.map_cons, List.map_cons, ih]
      exact congrArg (· :: _) hout.symm
  have hnodup : (raw.map (·.kksCalc)).Nodup := hnames ▸ hplan.nodup_outputs
  intro item hitem
  obtain ⟨gc, hgc, index, rule, hrule, hcompiled⟩ := exists_of_forall₂ hload hitem
  obtain ⟨rc, hrc, hsame⟩ := exists_of_forall₂ hrules.flip (hplan.mem_rules hgc)
  obtain ⟨_, hfrom, hok⟩ := mem_engine_rules hrc
  obtain ⟨other, hother, rfl⟩ := List.mem_map.mp hfrom
  have hname : other.kksCalc = item.kksCalc :=
    calc
      other.kksCalc = rc.kksCalc := (rust_compileRule_ok hok).2.2.symm
      _ = gc.output := hsame.name
      _ = rule.output := by rw [(compileRule_ok hcompiled).1]
      _ = item.kksCalc := by rw [(parseRule_ok hrule).2.1]
  obtain rfl : other = item := List.inj_on_of_nodup_map hnodup hother hitem hname
  exact admitted_of_compileRule hrule hcompiled hok

/-- For every accepted configuration and all good readings: the engines agree as long as every
rule is admitted and no shift by a wide count is executed. Without the first they never do. -/
theorem engines_agree (laws : FloatOps.Lawful F64 F32) {raw : List (RawRule F64)}
    {stateInputs : List Go.StateInput} {config : Go.Config F64} {definitions : Go.Definitions}
    {plan : Go.Plan F64} (hload : Go.parseConfig raw stateInputs = .ok config)
    (hplan : Go.compile config definitions = .ok plan) (readings : Readings F64 F32)
    (stamp : Go.Stamp) :
    (EnginesAgree (Rust.CalcEngine.new (raw.map Rust.CalcRule.ofRaw)) plan readings stamp →
      ∀ item ∈ raw, Admitted item) ∧
    ((∀ item ∈ raw, Admitted item) → narrowShifts plan.rules (startVars readings) = true →
      EnginesAgree (Rust.CalcEngine.new (raw.map Rust.CalcRule.ofRaw)) plan readings stamp) := by
  obtain ⟨compiled, haccepted⟩ := Go.compile_ok hplan
  have hloaded := loaded (parseConfig_ok hload) haccepted.compiles
  refine ⟨fun h => admitted_of_rules haccepted hloaded h.rules, ?_⟩
  intro htexts hshift
  have hrules := engine_rules haccepted hloaded htexts
  generalize Rust.CalcEngine.new (raw.map Rust.CalcRule.ofRaw) = engine at hrules ⊢
  have hcycle := reset_agree laws hrules readings stamp hshift
  constructor
  · exact hrules
  · have hvalid : (fun name => (rustVariables readings name).map fun _ => true) =
        rustValidity readings := by
      funext name
      rw [rustVariables, rustValidity, Option.map_map]
      rfl
    have h := congrArg (List.map fun x => (x.1, x.2.1)) hcycle
    rw [Rust.CalcEngine.runCycle, hvalid]
    simpa [List.map_map, Function.comp_def] using h
  · have h := congrArg (List.map fun x => (x.1, x.2.2)) hcycle
    simpa [List.map_map, Function.comp_def] using h

end

/-! Two chained rules, and a rule whose count loses its high bits in the Rust engine. -/

def shiftedRules : List (RawRule Int) :=
  [⟨"alarm", "bool", "shifted > 10", none, none, none⟩,
    ⟨"shifted", "uint", "a << 3", none, none, none⟩]

def readingOfA : Readings Int Int :=
  AList.singleton "a" ⟨.uint32, .uint 5, Go.statusGood, by decide, 1⟩

theorem engines_agree_shifted : ∃ config plan, Go.parseConfig shiftedRules [] = .ok config ∧
    Go.compile config none = .ok plan ∧
    EnginesAgree (Rust.CalcEngine.new (shiftedRules.map Rust.CalcRule.ofRaw)) plan readingOfA
      ⟨10, 1, 1⟩ := by
  have hnarrow : ((Go.parseConfig shiftedRules []).toOption.bind fun config =>
      (Go.compile config none).toOption).map
        (fun plan => narrowShifts plan.rules (startVars readingOfA)) = some true := by
    decide +kernel
  cases hload : Go.parseConfig shiftedRules [] with
  | error e => simp [hload, Except.toOption] at hnarrow
  | ok config =>
    cases hplan : Go.compile config none with
    | error e => simp [hload, hplan, Except.toOption] at hnarrow
    | ok plan =>
      have hshift : narrowShifts plan.rules (startVars readingOfA) = true := by
        simpa [hload, hplan, Except.toOption] using hnarrow
      have htexts : ∀ item ∈ shiftedRules, Admitted item := by decide +kernel
      exact ⟨config, plan, rfl, hplan,
        (engines_agree FloatOps.wholeNumbers_lawful hload hplan _ _).2 htexts hshift⟩

def wideShiftRule : RawRule Int := ⟨"x", "double", "1 << 4294967296", none, none, none⟩

theorem wideShift_disagree : ∃ config plan, Go.parseConfig [wideShiftRule] [] = .ok config ∧
    Go.compile config none = .ok plan ∧ Admitted wideShiftRule ∧
    (Rust.CalcEngine.new ([wideShiftRule].map Rust.CalcRule.ofRaw)).runCycle
      (rustVariables (∅ : Readings Int Int)) = [("x", .double 1)] ∧
    (Go.reset (Go.newRunner plan) (goInputs (∅ : Readings Int Int)) ⟨10, 1, 1⟩).1.results.map
      (fun r => (r.nodeID, r.value)) = [("x", .float64 (-2 ^ 63))] ∧
    ¬ EnginesAgree (Rust.CalcEngine.new ([wideShiftRule].map Rust.CalcRule.ofRaw)) plan
      (∅ : Readings Int Int) ⟨10, 1, 1⟩ := by
  have hreset : ((Go.parseConfig [wideShiftRule] []).toOption.bind fun config =>
      (Go.compile config none).toOption).map (fun plan =>
        (Go.reset (Go.newRunner plan) (goInputs (∅ : Readings Int Int)) ⟨10, 1, 1⟩).1.results.map
          fun r => (r.nodeID, r.value)) = some [("x", .float64 (-2 ^ 63))] := by
    decide +kernel
  have hcycle : (Rust.CalcEngine.new ([wideShiftRule].map Rust.CalcRule.ofRaw)).runCycle
      (rustVariables (∅ : Readings Int Int)) = [("x", .double 1)] := by
    decide +kernel
  cases hload : Go.parseConfig [wideShiftRule] [] with
  | error e => simp [hload, Except.toOption] at hreset
  | ok config =>
    cases hplan : Go.compile config none with
    | error e => simp [hload, hplan, Except.toOption] at hreset
    | ok plan =>
      simp only [hload, hplan, Except.toOption, Option.bind_some, Option.map_some,
        Option.some.injEq] at hreset
      refine ⟨config, plan, rfl, hplan, by decide +kernel, hcycle, hreset, fun h => ?_⟩
      have hvalues := h.values
      rw [hcycle, hreset] at hvalues
      revert hvalues
      decide

end RcdServer.Calc
