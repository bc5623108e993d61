import RcdServer.Calc.Service

/-!
# No change of an input is lost

While the service does not ask for a full evaluation, the runner is settled for inputs that are the
present ones, up to names that are marked, unannounced or taken by the evaluation under way. Every
step of every party keeps this, so nothing is stale once no name is left.
-/
namespace RcdServer.Calc.Go

open Lib Lib.Run

variable {F64 F32 : Type}

/-! ## Inputs and their names -/

theorem mem_baseVariables {plan : Plan F64} {name : String} :
    name ∈ plan.baseVariables ↔
      (∃ rule ∈ plan.rules, name ∈ rule.vars) ∧ ∀ rule ∈ plan.rules, rule.output ≠ name := by
  simp [Plan.baseVariables, List.mem_insertionSort]

theorem hasBaseVariable_iff {plan : Plan F64} {name : String} :
    plan.hasBaseVariable name = true ↔ name ∈ plan.baseVariables := by
  simp [Plan.hasBaseVariable]

/-- What `resolve` returns for the names. -/
def inputsOf (values : String → Input F64 F32) (names : List String) : Inputs F64 F32 :=
  names.foldr (fun name inputs => inputs.insert name (values name)) ∅

theorem lookup_inputsOf (values : String → Input F64 F32) (names : List String) (name : String) :
    (inputsOf values names).lookup name = if name ∈ names then some (values name) else none := by
  induction names with
  | nil => simp [inputsOf]
  | cons first names ih =>
    show (AList.insert first (values first) (inputsOf values names)).lookup name = _
    by_cases h : name = first
    · subst h
      simp
    · rw [AList.lookup_insert_ne h, ih]
      simp [h]

/-- The inputs have the present values, except perhaps for the stale names. -/
structure Reads (plan : Plan F64) (values : String → Input F64 F32) (stale : List String)
    (inputs : Inputs F64 F32) : Prop where
  base : ∀ name ∈ inputs, name ∈ plan.baseVariables
  value : ∀ name ∈ plan.baseVariables, name ∉ stale → inputs.lookup name = some (values name)

/-- The names an evaluation has taken: `todo` is still to be read, `got` has been read. -/
structure Taken (plan : Plan F64) (values : String → Input F64 F32) (stale todo : List String)
    (got : Inputs F64 F32) : Prop where
  todo : ∀ name ∈ todo, name ∈ plan.baseVariables
  base : ∀ name ∈ got, name ∈ plan.baseVariables
  value : ∀ name ∈ got, name ∉ stale → got.lookup name = some (values name)

section Stale

variable {plan : Plan F64} {values : String → Input F64 F32} {stale stale' todo : List String}
  {inputs got : Inputs F64 F32}

/-- Later values differ only for stale names. -/
structure Later (plan : Plan F64) (values values' : String → Input F64 F32)
    (stale stale' : List String) : Prop where
  more : ∀ name ∈ plan.baseVariables, name ∈ stale → name ∈ stale'
  same : ∀ name ∈ plan.baseVariables, name ∉ stale' → values' name = values name

variable {values' : String → Input F64 F32}

theorem Reads.later (h : Reads plan values stale inputs) (hl : Later plan values values' stale stale') :
    Reads plan values' stale' inputs where
  base := h.base
  value := by
    intro name hname hfresh
    rw [hl.same name hname hfresh]
    exact h.value name hname fun hs => hfresh (hl.more name hname hs)

theorem Taken.later (h : Taken plan values stale todo got)
    (hl : Later plan values values' stale stale') : Taken plan values' stale' todo got where
  todo := h.todo
  base := h.base
  value := by
    intro name hname hfresh
    have hbase := h.base name hname
    rw [hl.same name hbase hfresh]
    exact h.value name hname fun hs => hfresh (hl.more name hbase hs)

/-- A base name is computed by no rule. -/
theorem output_notMem (h : ∀ name ∈ got, name ∈ plan.baseVariables) :
    ∀ rule ∈ plan.rules, rule.output ∉ got := by
  intro rule hrule hmem
  exact (mem_baseVariables.mp (h _ hmem)).2 rule hrule rfl

/-- All base names have been read. -/
theorem Taken.reads_of_all (h : Taken plan values stale [] got)
    (hall : ∀ name ∈ plan.baseVariables, name ∈ ([] : List String) ∨ name ∈ got) :
    Reads plan values stale got where
  base := h.base
  value := fun name hname hfresh => h.value name ((hall name hname).resolve_left (by simp)) hfresh

/-- What has been read replaces what was stale. -/
theorem Taken.reads_union (h : Taken plan values stale [] got)
    (hreads : Reads plan values (stale ++ ([] ++ got.keys)) inputs) :
    Reads plan values stale (got ∪ inputs) where
  base := by
    intro name hname
    rcases AList.mem_union.mp hname with hgot | hin
    · exact h.base name hgot
    · exact hreads.base name hin
  value := by
    intro name hname hfresh
    by_cases hgot : name ∈ got
    · rw [AList.lookup_union_left hgot]
      exact h.value name hgot hfresh
    · rw [AList.lookup_union_right hgot]
      refine hreads.value name hname ?_
      simp only [List.nil_append, List.mem_append, not_or]
      exact ⟨hfresh, fun hkey => hgot (AList.mem_keys.mpr hkey)⟩

theorem Taken.read {name : String} (h : Taken plan values stale todo got) (hname : name ∈ todo) :
    Taken plan values stale (todo.filter (· ≠ name)) (got.insert name (values name)) where
  todo := fun n hn => h.todo n (List.mem_of_mem_filter hn)
  base := by
    intro n hn
    rcases (AList.mem_insert _).mp hn with rfl | hn
    · exact h.todo n hname
    · exact h.base n hn
  value := by
    intro n hn hfresh
    by_cases heq : n = name
    · subst heq
      exact AList.lookup_insert got
    · rw [AList.lookup_insert_ne heq]
      exact h.value n (((AList.mem_insert _).mp hn).resolve_left heq) hfresh

theorem mem_read {name n : String} (h : n ∈ todo ∨ n ∈ got) :
    n ∈ todo.filter (· ≠ name) ∨ n ∈ got.insert name (values name) := by
  by_cases heq : n = name
  · exact .inr ((AList.mem_insert _).mpr (.inl heq))
  · rcases h with h | h
    · exact .inl (List.mem_filter.mpr ⟨h, by simpa using heq⟩)
    · exact .inr ((AList.mem_insert _).mpr (.inr h))

end Stale

/-! ## Results -/

section Results

variable [FloatOps F64 F32]

/-- The published results are those of the list. -/
def Published (results : String → Option (Result F64 F32)) (list : List (Result F64 F32)) : Prop :=
  ∀ name, results name = list.find? fun r => r.nodeID == name

omit [FloatOps F64 F32] in
theorem storeResults_apply (results : String → Option (Result F64 F32))
    {list : List (Result F64 F32)} (hnodup : (list.map (·.nodeID)).Nodup) (name : String) :
    Service.storeResults results list name =
      match list.find? fun r => r.nodeID == name with
      | some r => some r
      | none => results name := by
  induction list generalizing results with
  | nil => rfl
  | cons first list ih =>
    obtain ⟨hfirst, hrest⟩ := List.nodup_cons.mp hnodup
    show Service.storeResults (Function.update results first.nodeID (some first)) list name = _
    rw [ih _ hrest]
    by_cases h : first.nodeID = name
    · have hnone : list.find? (fun r => r.nodeID == name) = none := by
        rw [List.find?_eq_none]
        intro r hr heq
        exact hfirst (List.mem_map.mpr ⟨r, hr, (beq_iff_eq.mp heq).trans h.symm⟩)
      rw [hnone, List.find?_cons_of_pos (by simpa using h)]
      simp [h]
    · rw [List.find?_cons_of_neg (by simpa using h)]
      simp [Function.update_of_ne (Ne.symm h)]

theorem Current.nodeIDs {plan : Plan F64} {inputs : Inputs F64 F32} {r : Runner F64 F32}
    (hr : Current plan inputs r) : r.results.map (·.nodeID) = plan.rules.map (·.output) := by
  have h := congrArg (List.map (·.nodeID)) hr.results_eq
  simpa [List.map_map, Function.comp_def, Result.unstamped, cell, result] using h

theorem ValidPlan.nodup (plan : ValidPlan F64 F32) : (plan.plan.rules.map (·.output)).Nodup := by
  obtain ⟨config, definitions, h⟩ := plan.accepted
  obtain ⟨compiled, hacc⟩ := compile_ok h
  rw [List.nodup_iff_pairwise_ne, List.pairwise_map]
  exact hacc.ordered.1.imp fun h => h.2.symm

omit [FloatOps F64 F32] in
theorem length_marked {r : Runner F64 F32} {affected : Nat → Bool}
    (h : r.results.length = r.plan.rules.length) :
    (marked r affected).length = r.plan.rules.length := by
  simp [marked, h]

theorem length_evaluateRules (stamp : Stamp)
    (items : List (CompiledRule F64 × Bool × Result F64 F32)) (vars : Variables F64) :
    (evaluateRules stamp items vars).2.1.length = items.length := by
  induction items generalizing vars with
  | nil => rfl
  | cons x items ih =>
    obtain ⟨rule, affected, previous⟩ := x
    cases affected with
    | false => simp [evaluateRules, ih]
    | true => simp [evaluateRules, ih]

/-- A runner that belongs to the plan. -/
structure Shaped (plan : Plan F64) (r : Runner F64 F32) : Prop where
  plan_eq : r.plan = plan
  length_eq : r.results.length = plan.rules.length

theorem shaped_evaluate {plan : Plan F64} {r : Runner F64 F32} (h : Shaped plan r)
    (affected : Nat → Bool) (stamp : Stamp) : Shaped plan (evaluate r affected stamp).1 where
  plan_eq := h.plan_eq
  length_eq := by
    have hlen : r.results.length = r.plan.rules.length := by rw [h.plan_eq, h.length_eq]
    show (evaluateRules stamp (marked r affected) r.vars).2.1.length = _
    rw [length_evaluateRules, length_marked hlen, h.plan_eq]

theorem shaped_compute {plan : Plan F64} {run : Running F64 F32} (h : Shaped plan run.runner)
    (inputs : Inputs F64 F32) (now : Time) : Shaped plan (Service.compute run inputs now).1 := by
  unfold Service.compute
  split
  · have hstart : Shaped plan { run.runner with vars := writeInputs (fun _ => none) inputs } :=
      ⟨h.plan_eq, h.length_eq⟩
    exact shaped_evaluate hstart _ _
  · unfold update
    split
    · exact h
    · have hstart : Shaped plan { run.runner with vars := writeInputs run.runner.vars inputs } :=
        ⟨h.plan_eq, h.length_eq⟩
      exact shaped_evaluate hstart _ _

end Results

/-! ## The invariant -/

section Invariant

variable [FloatOps F64 F32]

def Worker.run? : Worker F64 F32 → Option (Running F64 F32)
  | .idle => none
  | .resolving run _ _ => some run
  | .computed run _ _ => some run

/-- The names whose value the runner may not know. -/
def Situation.stale (s : Situation F64 F32) : List String := s.service.dirty ++ s.unannounced

def Settles (plan : Plan F64) (runner : Runner F64 F32) (values : String → Input F64 F32)
    (stale : List String) : Prop :=
  ∃ inputs, Current plan inputs runner ∧ Reads plan values stale inputs

/-- How far the runner is while no full evaluation is asked for. -/
def Progress (s : Situation F64 F32) (plan : Plan F64) (runner : Runner F64 F32) : Prop :=
  match s.worker with
  | .idle => Settles plan runner s.values s.stale ∧ Published s.service.results runner.results
  | .resolving run todo got =>
    Taken plan s.values s.stale todo got ∧
      if run.full then ∀ name ∈ plan.baseVariables, name ∈ todo ∨ name ∈ got
      else Settles plan runner s.values (s.stale ++ (todo ++ got.keys))
  | .computed _ _ results => Settles plan runner s.values s.stale ∧ results = runner.results

/-- An evaluation under way is either up to date, or the service asks for a full one. -/
structure Follows (s : Service F64 F32) (run : Running F64 F32) : Prop where
  age : run.generation = s.generation ∧ s.full = false ∨
    run.generation < s.generation ∧ (s.plan.isSome = true → s.full = true)
  installs : run.installs ≤ s.installs
  same : run.generation = s.generation → run.installs = s.installs
  own : run.installs = s.installs → s.plan = some run.plan

structure Inv (s : Situation F64 F32) : Prop where
  shape : ∀ plan, s.service.plan = some plan →
    ∃ runner, s.service.runner = some runner ∧ Shaped plan.plan runner
  keys : ∀ name r, s.service.results name = some r →
    ∃ plan, s.service.plan = some plan ∧ ∃ rule ∈ plan.plan.rules, rule.output = name
  dirty : ∀ name ∈ s.service.dirty, ∀ plan, s.service.plan = some plan →
    name ∈ plan.plan.baseVariables
  follows : ∀ run, s.worker.run? = some run → Follows s.service run
  held : ∀ run todo got, s.worker = .resolving run todo got →
    run.installs = s.service.installs → s.service.runner = some run.runner
  progress : s.service.full = false → ∀ plan runner, s.service.plan = some plan →
    s.service.runner = some runner → Progress s plan.plan runner

/-- An evaluation is up to date while no full one is asked for. -/
theorem Follows.generation_eq {s : Service F64 F32} {run : Running F64 F32} (h : Follows s run)
    {plan : ValidPlan F64 F32} (hplan : s.plan = some plan) (hfull : s.full = false) :
    run.generation = s.generation := by
  rcases h.age with ⟨heq, -⟩ | ⟨-, hasked⟩
  · exact heq
  · rw [hplan] at hasked
    rw [hasked rfl] at hfull
    cases hfull

theorem inv_init (plan : Option (ValidPlan F64 F32)) (version : UInt64)
    (values : String → Input F64 F32) : Inv (Situation.init plan version values) where
  shape := by
    rintro p rfl
    exact ⟨_, rfl, rfl, by simp [newRunner]⟩
  keys := by
    intro name r hr
    cases hr
  dirty := by
    intro name hname
    cases hname
  follows := by
    intro run hrun
    cases hrun
  held := by
    intro run todo got hworker
    cases hworker
  progress := by
    intro hfull p runner hplan
    obtain rfl : plan = some p := hplan
    cases hfull

/-! ## Marks -/

theorem Settles.later {plan : Plan F64} {runner : Runner F64 F32}
    {values values' : String → Input F64 F32} {stale stale' : List String}
    (h : Settles plan runner values stale) (hl : Later plan values values' stale stale') :
    Settles plan runner values' stale' := by
  obtain ⟨inputs, hcurrent, hreads⟩ := h
  exact ⟨inputs, hcurrent, hreads.later hl⟩

omit [FloatOps F64 F32] in
theorem Later.append {plan : Plan F64} {values values' : String → Input F64 F32}
    {stale stale' : List String} (h : Later plan values values' stale stale') (more : List String) :
    Later plan values values' (stale ++ more) (stale' ++ more) where
  more := by
    intro name hname hmem
    rcases List.mem_append.mp hmem with hs | hm
    · exact List.mem_append_left _ (h.more name hname hs)
    · exact List.mem_append_right _ hm
  same := fun name hname hfresh => h.same name hname fun hs => hfresh (List.mem_append_left _ hs)

/-- A step that marks names or changes values of names that become stale. -/
theorem inv_marks {s s' : Situation F64 F32} (h : Inv s) (hworker : s'.worker = s.worker)
    (hplan : s'.service.plan = s.service.plan) (hrunner : s'.service.runner = s.service.runner)
    (hresults : s'.service.results = s.service.results) (hfull : s'.service.full = s.service.full)
    (hgeneration : s'.service.generation = s.service.generation)
    (hinstalls : s'.service.installs = s.service.installs)
    (hdirty : ∀ name ∈ s'.service.dirty, ∀ plan, s.service.plan = some plan →
      name ∈ plan.plan.baseVariables)
    (hlater : ∀ plan, s.service.plan = some plan →
      Later plan.plan s.values s'.values s.stale s'.stale) : Inv s' where
  shape := by
    rw [hplan, hrunner]
    exact h.shape
  keys := by
    rw [hplan, hresults]
    exact h.keys
  dirty := by
    rw [hplan]
    exact hdirty
  follows := by
    rw [hworker]
    intro run hrun
    have hf := h.follows run hrun
    exact ⟨by rw [hgeneration, hfull, hplan]; exact hf.age, by rw [hinstalls]; exact hf.installs,
      by rw [hgeneration, hinstalls]; exact hf.same, by rw [hinstalls, hplan]; exact hf.own⟩
  held := by
    rw [hworker, hinstalls, hrunner]
    exact h.held
  progress := by
    rw [hfull, hplan, hrunner]
    intro hf plan runner hp hr
    have hprogress := h.progress hf plan runner hp hr
    have hl := hlater plan hp
    unfold Progress at hprogress ⊢
    rw [hworker, hresults]
    cases hw : s.worker with
    | idle =>
      simp only [hw] at hprogress
      exact ⟨hprogress.1.later hl, hprogress.2⟩
    | resolving run todo got =>
      simp only [hw] at hprogress
      refine ⟨hprogress.1.later hl, ?_⟩
      have hrest := hprogress.2
      split at hrest
      · rename_i hrun
        rw [if_pos hrun]
        exact hrest
      · rename_i hrun
        rw [if_neg hrun]
        exact hrest.later (hl.append _)
    | computed run changed results =>
      simp only [hw] at hprogress
      exact ⟨hprogress.1.later hl, hprogress.2⟩

theorem markDirty_fields (s : Service F64 F32) (plan : ValidPlan F64 F32) (name : String) :
    ∃ dirty, s.markDirty plan name = { s with dirty := dirty } ∧
      (∀ n ∈ dirty, n ∈ s.dirty ∨ n ∈ plan.plan.baseVariables) ∧ (∀ n ∈ s.dirty, n ∈ dirty) ∧
      (name ∈ plan.plan.baseVariables → name ∈ dirty) := by
  unfold Service.markDirty
  split
  · rename_i hbase
    rw [hasBaseVariable_iff] at hbase
    refine ⟨s.dirty.insert name, rfl, ?_, fun n hn => List.mem_insert_of_mem hn, fun _ => ?_⟩
    · intro n hn
      rcases List.mem_insert_iff.mp hn with rfl | hn
      · exact .inr hbase
      · exact .inl hn
    · exact List.mem_insert_self
  · rename_i hbase
    rw [hasBaseVariable_iff] at hbase
    exact ⟨s.dirty, rfl, fun n hn => .inl hn, fun n hn => hn, fun hname => absurd hname hbase⟩

/-- A name that is marked need not be announced any longer. -/
theorem inv_markDirty {s : Situation F64 F32} (h : Inv s) {plan : ValidPlan F64 F32}
    (hplan : s.service.plan = some plan) {service : Service F64 F32}
    (hservice : service = { s.service with
      stateSeen := service.stateSeen, stateEventPending := service.stateEventPending })
    (name : String) :
    Inv { s with
      service := service.markDirty plan name
      unannounced := s.unannounced.filter (· ≠ name) } := by
  have hd : service.dirty = s.service.dirty := by rw [hservice]
  obtain ⟨dirty, heq, hbase, hkeep, hmarked⟩ := markDirty_fields service plan name
  rw [heq]
  refine inv_marks h rfl ?_ ?_ ?_ ?_ ?_ ?_ ?_ ?_
  · rw [hservice]
  · rw [hservice]
  · rw [hservice]
  · rw [hservice]
  · rw [hservice]
  · rw [hservice]
  · intro n hn p hp
    rcases hbase n hn with hold | hnew
    · exact h.dirty n (hd ▸ hold) p hp
    · obtain rfl : plan = p := Option.some.inj (hplan.symm.trans hp)
      exact hnew
  · intro p hp
    obtain rfl : plan = p := Option.some.inj (hplan.symm.trans hp)
    refine ⟨?_, fun _ _ _ => rfl⟩
    intro n hn hmem
    show n ∈ dirty ++ s.unannounced.filter (· ≠ name)
    by_cases hname : n = name
    · subst hname
      exact List.mem_append_left _ (hmarked hn)
    · rcases List.mem_append.mp hmem with hs | hs
      · exact List.mem_append_left _ (hkeep n (hd ▸ hs))
      · exact List.mem_append_right _ (List.mem_filter.mpr ⟨hs, by simpa using hname⟩)

/-! ## Steps -/

theorem inv_change {s : Situation F64 F32} (h : Inv s) (name : String) (value : Input F64 F32) :
    Inv { s with
      values := Function.update s.values name value, unannounced := s.unannounced.insert name } := by
  refine inv_marks h rfl rfl rfl rfl rfl rfl rfl h.dirty fun plan _ => ⟨?_, ?_⟩
  · intro n _ hmem
    rcases List.mem_append.mp hmem with hs | hs
    · exact List.mem_append_left _ hs
    · exact List.mem_append_right _ (List.mem_insert_of_mem hs)
  · intro n _ hfresh
    have hne : n ≠ name := by
      rintro rfl
      exact hfresh (List.mem_append_right _ List.mem_insert_self)
    exact Function.update_of_ne hne _ _

theorem inv_inputChanged {s : Situation F64 F32} (h : Inv s) (name : String) :
    Inv { s with
      service := s.service.inputChanged name
      unannounced := s.unannounced.filter (· ≠ name) } := by
  cases hplan : s.service.plan with
  | none =>
    have heq : s.service.inputChanged name = s.service := by simp [Service.inputChanged, hplan]
    rw [heq]
    refine inv_marks h rfl rfl rfl rfl rfl rfl rfl h.dirty ?_
    intro plan hp
    rw [hplan] at hp
    cases hp
  | some plan =>
    have heq : s.service.inputChanged name = s.service.markDirty plan name := by
      simp [Service.inputChanged, hplan]
    rw [heq]
    exact inv_markDirty h hplan rfl name

theorem inv_stateChanged {s : Situation F64 F32} (h : Inv s) (installs : Nat)
    (name signature : String) :
    Inv { s with
      service := (s.service.stateChanged installs name signature).2
      unannounced :=
        if (s.service.stateChanged installs name signature).1 then s.unannounced.filter (· ≠ name)
        else s.unannounced } := by
  generalize hcall : s.service.stateChanged installs name signature = answer
  unfold Service.stateChanged at hcall
  split at hcall
  · cases hcall
    exact h
  · rename_i plan hplan
    split at hcall
    · cases hcall
      exact h
    · split at hcall
      · cases hcall
        exact inv_markDirty h hplan rfl name
      · cases hcall
        exact h

theorem inv_invalidate {s : Situation F64 F32} (h : Inv s) (routeChanged : Bool) :
    Inv { s with service := s.service.invalidate routeChanged, unannounced := [] } := by
  unfold Service.invalidate
  split
  · rename_i hplan
    refine ⟨h.shape, h.keys, h.dirty, h.follows, h.held, ?_⟩
    intro hfull plan runner hp
    have hp : s.service.plan = some plan := hp
    rw [hplan] at hp
    cases hp
  · refine ⟨h.shape, h.keys, h.dirty, ?_, h.held, ?_⟩
    · intro run hrun
      have hf := h.follows run hrun
      have hage : run.generation ≤ s.service.generation := by
        rcases hf.age with ⟨heq, -⟩ | ⟨hlt, -⟩ <;> omega
      refine ⟨.inr ⟨Nat.lt_succ_of_le hage, fun _ => rfl⟩, hf.installs, ?_, hf.own⟩
      intro heq
      have heq : run.generation = s.service.generation + 1 := heq
      omega
    · intro hfull
      cases hfull

theorem inv_install {s : Situation F64 F32} (h : Inv s) (plan : Option (ValidPlan F64 F32))
    (version : UInt64) :
    Inv { s with service := s.service.install plan version, unannounced := [] } where
  shape := by
    rintro p rfl
    exact ⟨_, rfl, rfl, by simp [newRunner]⟩
  keys := by
    intro name r hr
    cases hr
  dirty := by
    intro name hname
    cases hname
  follows := by
    intro run hrun
    have hf := h.follows run hrun
    have hage : run.generation ≤ s.service.generation := by
      rcases hf.age with ⟨heq, -⟩ | ⟨hlt, -⟩ <;> omega
    have hold := hf.installs
    refine ⟨.inr ⟨Nat.lt_succ_of_le hage, fun hsome => hsome⟩, Nat.le_succ_of_le hold, ?_, ?_⟩
    · intro heq
      have heq : run.generation = s.service.generation + 1 := heq
      omega
    · intro heq
      have heq : run.installs = s.service.installs + 1 := heq
      omega
  held := by
    intro run todo got hworker heq
    have hworker : s.worker = .resolving run todo got := hworker
    have hold := (h.follows run (by rw [hworker]; rfl)).installs
    have heq : run.installs = s.service.installs + 1 := heq
    omega
  progress := by
    intro hfull p runner hp
    obtain rfl : plan = some p := hp
    cases hfull

theorem start_eq_some {s s' : Service F64 F32} {run : Running F64 F32} {names : List String}
    (h : s.start = some (run, names, s')) : ∃ plan runner, s.plan = some plan ∧
      s.runner = some runner ∧
      run = ⟨plan, runner, s.version, s.routeRevision, s.generation, s.full, s.installs⟩ ∧
      names = (if s.full then plan.plan.baseVariables else s.dirty) ∧
      s' = { s with full := false, dirty := [] } := by
  unfold Service.start at h
  cases hplan : s.plan with
  | none => simp [hplan] at h
  | some plan =>
    cases hrunner : s.runner with
    | none => simp [hplan, hrunner] at h
    | some runner =>
      simp only [hplan, hrunner] at h
      split at h
      · cases h
      · simp only [Option.some.injEq, Prod.mk.injEq] at h
        exact ⟨plan, runner, rfl, rfl, h.1.symm, h.2.1.symm, h.2.2.symm⟩

theorem inv_start {s : Situation F64 F32} (h : Inv s) (hidle : s.worker = .idle)
    {run : Running F64 F32} {names : List String} {service : Service F64 F32}
    (hstart : s.service.start = some (run, names, service)) :
    Inv { s with service := service, worker := .resolving run names ∅ } := by
  obtain ⟨plan, runner, hplan, hrunner, rfl, rfl, rfl⟩ := start_eq_some hstart
  refine ⟨h.shape, h.keys, ?_, ?_, ?_, ?_⟩
  · intro name hname
    cases hname
  · intro run hrun
    obtain rfl := (Option.some.inj hrun).symm
    exact ⟨.inl ⟨rfl, rfl⟩, Nat.le_refl _, fun _ => rfl, fun _ => hplan⟩
  · intro run todo got hworker _
    cases hworker
    exact hrunner
  · intro _ p r hp hr
    obtain rfl : plan = p := Option.some.inj (hplan.symm.trans hp)
    obtain rfl : runner = r := Option.some.inj (hrunner.symm.trans hr)
    have hnone : ∀ name, name ∉ (∅ : Inputs F64 F32) := fun name => AList.notMem_empty name
    cases hfull : s.service.full with
    | true =>
      refine ⟨⟨?_, fun name hn => absurd hn (hnone name), fun name hn => absurd hn (hnone name)⟩, ?_⟩
      · simp
      · simp only [if_true]
        exact fun name hname => .inl hname
    | false =>
      have hprogress := h.progress hfull plan runner hplan hrunner
      simp only [Progress, hidle] at hprogress
      refine ⟨⟨?_, fun name hn => absurd hn (hnone name), fun name hn => absurd hn (hnone name)⟩, ?_⟩
      · intro name hname
        exact h.dirty name (by simpa using hname) plan hplan
      · simp only [Bool.false_eq_true, if_false]
        refine hprogress.1.later ⟨?_, fun _ _ _ => rfl⟩
        intro name _ hmem
        simp only [Situation.stale, List.nil_append, List.mem_append] at hmem ⊢
        tauto

theorem inv_read {s : Situation F64 F32} (h : Inv s) {run : Running F64 F32} {todo : List String}
    {got : Inputs F64 F32} (hworker : s.worker = .resolving run todo got) {name : String}
    (hname : name ∈ todo) :
    Inv { s with
      worker := .resolving run (todo.filter (· ≠ name)) (got.insert name (s.values name)) } := by
  refine ⟨h.shape, h.keys, h.dirty, ?_, ?_, ?_⟩
  · intro r hr
    exact h.follows r (by rw [hworker]; exact hr)
  · intro r t g hw heq
    cases hw
    exact h.held run todo got hworker heq
  · intro hfull plan runner hplan hrunner
    have hprogress := h.progress hfull plan runner hplan hrunner
    simp only [Progress, hworker] at hprogress
    obtain ⟨htaken, hrest⟩ := hprogress
    refine ⟨htaken.read hname, ?_⟩
    cases hrun : run.full with
    | true =>
      simp only [hrun, if_true] at hrest ⊢
      exact fun n hn => mem_read (hrest n hn)
    | false =>
      simp only [hrun, Bool.false_eq_true, if_false] at hrest ⊢
      refine hrest.later ⟨?_, fun _ _ _ => rfl⟩
      intro n _ hmem
      rcases List.mem_append.mp hmem with hs | ht
      · exact List.mem_append_left _ hs
      · refine List.mem_append_right _ ?_
        have hold : n ∈ todo ∨ n ∈ got := (List.mem_append.mp ht).imp_right AList.mem_keys.mpr
        exact List.mem_append.mpr ((mem_read hold).imp_right AList.mem_keys.mp)

theorem inv_resolveFailed {s : Situation F64 F32} (h : Inv s) {run : Running F64 F32}
    {todo : List String} {got : Inputs F64 F32} (hworker : s.worker = .resolving run todo got) :
    Inv { s with service := s.service.resolveFailed run, worker := .idle } := by
  have hf := h.follows run (by rw [hworker]; rfl)
  have hnone : ∀ r, Worker.run? (.idle : Worker F64 F32) ≠ some r := by
    intro r hr
    cases hr
  unfold Service.resolveFailed
  split
  · refine ⟨h.shape, h.keys, h.dirty, fun r hr => absurd hr (hnone r), ?_, ?_⟩
    · intro r t g hw
      cases hw
    · intro hfull
      cases hfull
  · rename_i hgeneration
    refine ⟨h.shape, h.keys, h.dirty, fun r hr => absurd hr (hnone r), ?_, ?_⟩
    · intro r t g hw
      cases hw
    · intro hfull plan runner hplan
      exact absurd (hf.generation_eq hplan hfull).symm hgeneration

theorem current_compute {plan : ValidPlan F64 F32} {run : Running F64 F32}
    {values : String → Input F64 F32} {stale : List String} {got : Inputs F64 F32}
    (hshape : Shaped plan.plan run.runner) (htaken : Taken plan.plan values stale [] got)
    (hrest : if run.full then ∀ name ∈ plan.plan.baseVariables, name ∈ ([] : List String) ∨ name ∈ got
      else Settles plan.plan run.runner values (stale ++ ([] ++ got.keys))) (now : Time) :
    Settles plan.plan (Service.compute run got now).1 values stale := by
  obtain ⟨config, definitions, hcompile⟩ := plan.accepted
  obtain ⟨compiled, hacc⟩ := compile_ok hcompile
  unfold Service.compute
  cases hrun : run.full with
  | true =>
    simp only [hrun, if_true] at hrest ⊢
    exact ⟨got, reset_runner_current hacc hshape.plan_eq hshape.length_eq got _,
      htaken.reads_of_all hrest⟩
  | false =>
    simp only [hrun, Bool.false_eq_true, if_false] at hrest ⊢
    obtain ⟨inputs, hcurrent, hreads⟩ := hrest
    exact ⟨got ∪ inputs, update_current hacc hcurrent got _ (output_notMem htaken.base),
      htaken.reads_union hreads⟩

theorem inv_compute {s : Situation F64 F32} (h : Inv s) {run : Running F64 F32}
    {got : Inputs F64 F32} (hworker : s.worker = .resolving run [] got) (now : Time) :
    Inv { s with
      service :=
        if run.installs = s.service.installs then
          { s.service with runner := some (Service.compute run got now).1 }
        else s.service
      worker := .computed run (Service.compute run got now).2
        (Service.compute run got now).1.results } := by
  have hf := h.follows run (by rw [hworker]; rfl)
  have hrun? : ∀ r, Worker.run? (.computed run (Service.compute run got now).2
      (Service.compute run got now).1.results) = some r → r = run :=
    fun r hr => (Option.some.inj hr).symm
  by_cases hinstalls : run.installs = s.service.installs
  · rw [if_pos hinstalls]
    have hplan := hf.own hinstalls
    have hrunner := h.held run [] got hworker hinstalls
    obtain ⟨runner, hr, hshape⟩ := h.shape run.plan hplan
    obtain rfl : run.runner = runner := Option.some.inj (hrunner.symm.trans hr)
    refine ⟨?_, h.keys, h.dirty, ?_, ?_, ?_⟩
    · intro plan hp
      obtain rfl : run.plan = plan := Option.some.inj (hplan.symm.trans hp)
      exact ⟨_, rfl, shaped_compute hshape got now⟩
    · intro r hr
      rw [hrun? r hr]
      exact ⟨hf.age, hf.installs, hf.same, hf.own⟩
    · intro r t g hw
      cases hw
    · intro hfull plan runner hp hr
      obtain rfl : run.plan = plan := Option.some.inj (hplan.symm.trans hp)
      obtain rfl : (Service.compute run got now).1 = runner := Option.some.inj hr
      have hprogress := h.progress hfull run.plan run.runner hplan hrunner
      simp only [Progress, hworker] at hprogress
      exact ⟨current_compute hshape hprogress.1 hprogress.2 now, rfl⟩
  · rw [if_neg hinstalls]
    refine ⟨h.shape, h.keys, h.dirty, ?_, ?_, ?_⟩
    · intro r hr
      rw [hrun? r hr]
      exact hf
    · intro r t g hw
      cases hw
    · intro hfull plan runner hp
      exact absurd (hf.same (hf.generation_eq hp hfull)) hinstalls

theorem published_storeResults {plan : ValidPlan F64 F32} {inputs : Inputs F64 F32}
    {runner : Runner F64 F32} (hcurrent : Current plan.plan inputs runner)
    {results : String → Option (Result F64 F32)}
    (hkeys : ∀ name r, results name = some r → ∃ rule ∈ plan.plan.rules, rule.output = name) :
    Published (Service.storeResults results runner.results) runner.results := by
  intro name
  have hnodup : (runner.results.map (·.nodeID)).Nodup := by
    rw [hcurrent.nodeIDs]
    exact plan.nodup
  rw [storeResults_apply results hnodup]
  cases hfind : runner.results.find? fun r => r.nodeID == name with
  | some r => rfl
  | none =>
    dsimp only
    cases hold : results name with
    | none => rfl
    | some r =>
      exfalso
      obtain ⟨rule, hrule, rfl⟩ := hkeys name r hold
      have hmem : rule.output ∈ runner.results.map (·.nodeID) := by
        rw [hcurrent.nodeIDs]
        exact List.mem_map_of_mem hrule
      obtain ⟨r', hr', heq⟩ := List.mem_map.mp hmem
      exact List.find?_eq_none.mp hfind r' hr' (by simpa using heq)

omit [FloatOps F64 F32] in
theorem storeResults_keys {results : String → Option (Result F64 F32)}
    {list : List (Result F64 F32)} {name : String} {r : Result F64 F32}
    (h : Service.storeResults results list name = some r) :
    results name = some r ∨ name ∈ list.map (·.nodeID) := by
  induction list generalizing results with
  | nil => exact .inl h
  | cons first list ih =>
    rcases ih h with hold | hmem
    · by_cases heq : name = first.nodeID
      · exact .inr (by simp [heq])
      · exact .inl ((Function.update_of_ne heq _ _).symm.trans hold)
    · exact .inr (List.mem_cons_of_mem _ hmem)

theorem inv_publish {s : Situation F64 F32} (h : Inv s) {run : Running F64 F32}
    {changed results : List (Result F64 F32)} (hworker : s.worker = .computed run changed results)
    (now : Time) :
    Inv { s with service := (s.service.publish run changed results now).1, worker := .idle } := by
  have hf := h.follows run (by rw [hworker]; rfl)
  have hnone : ∀ r, Worker.run? (.idle : Worker F64 F32) ≠ some r := by
    intro r hr
    cases hr
  unfold Service.publish
  split
  · rename_i hgeneration
    refine ⟨h.shape, h.keys, h.dirty, fun r hr => absurd hr (hnone r), ?_, ?_⟩
    · intro r t g hw
      cases hw
    · intro hfull plan runner hplan
      exact absurd (hf.generation_eq hplan hfull) hgeneration
  · rename_i hgeneration
    have hgeneration : run.generation = s.service.generation := not_not.mp hgeneration
    have hplan := hf.own (hf.same hgeneration)
    have hfull : s.service.full = false := by
      rcases hf.age with ⟨-, hfull⟩ | ⟨hlt, -⟩
      · exact hfull
      · omega
    obtain ⟨runner, hrunner, hshape⟩ := h.shape run.plan hplan
    have hprogress := h.progress hfull run.plan runner hplan hrunner
    simp only [Progress, hworker] at hprogress
    obtain ⟨⟨inputs, hcurrent, hreads⟩, rfl⟩ := hprogress
    have hkeys : ∀ name r, s.service.results name = some r →
        ∃ rule ∈ run.plan.plan.rules, rule.output = name := by
      intro name r hr
      obtain ⟨p, hp, hrule⟩ := h.keys name r hr
      obtain rfl : run.plan = p := Option.some.inj (hplan.symm.trans hp)
      exact hrule
    refine ⟨h.shape, ?_, h.dirty, fun r hr => absurd hr (hnone r), ?_, ?_⟩
    · intro name r hr
      refine ⟨run.plan, hplan, ?_⟩
      rcases storeResults_keys hr with hold | hmem
      · exact hkeys name r hold
      · rw [hcurrent.nodeIDs] at hmem
        obtain ⟨rule, hrule, heq⟩ := List.mem_map.mp hmem
        exact ⟨rule, hrule, heq⟩
    · intro r t g hw
      cases hw
    · intro _ p r hp hr
      obtain rfl : run.plan = p := Option.some.inj (hplan.symm.trans hp)
      obtain rfl : runner = r := Option.some.inj (hrunner.symm.trans hr)
      exact ⟨⟨inputs, hcurrent, hreads⟩, published_storeResults hcurrent hkeys⟩

theorem inv_step {s s' : Situation F64 F32} {a : Step F64 F32} (h : Inv s)
    (hstep : step s a = some s') : Inv s' := by
  cases moved_of_step hstep with
  | change name value => exact inv_change h name value
  | inputChanged name => exact inv_inputChanged h name
  | stateChanged installs name signature => exact inv_stateChanged h installs name signature
  | invalidate routeChanged => exact inv_invalidate h routeChanged
  | install plan version => exact inv_install h plan version
  | stayed => exact h
  | started hworker hstart => exact inv_start h hworker hstart
  | read hworker hname => exact inv_read h hworker hname
  | resolveFailed hworker => exact inv_resolveFailed h hworker
  | computed hworker now => exact inv_compute h hworker now
  | published hworker now => exact inv_publish h hworker now

theorem inv_exec {s : Situation F64 F32} {plan : Option (ValidPlan F64 F32)} {version : UInt64}
    {values : String → Input F64 F32} {as : List (Step F64 F32)}
    (h : exec step (.init plan version values) as = some s) : Inv s :=
  exec_invariant Inv (fun _ _ _ => inv_step) (inv_init plan version values) h

/-! ## The published results -/

/-- A full evaluation of the plan on the values. -/
def fullResults (plan : Plan F64) (values : String → Input F64 F32) (stamp : Stamp) :
    List (Result F64 F32) :=
  (reset (newRunner plan) (inputsOf values plan.baseVariables) stamp).1.results

/-- Up to the time and the revisions of the evaluation. -/
def PublishedInFull (s : Situation F64 F32) : Prop :=
  match s.service.plan with
  | none => ∀ name, s.service.results name = none
  | some plan => ∀ stamp name, (s.service.results name).map Result.unstamped =
      ((fullResults plan.plan s.values stamp).map Result.unstamped).find? fun r => r.nodeID == name

theorem settles_full {plan : ValidPlan F64 F32} {runner : Runner F64 F32}
    {values : String → Input F64 F32} (h : Settles plan.plan runner values []) (stamp : Stamp) :
    runner.results.map Result.unstamped =
      (fullResults plan.plan values stamp).map Result.unstamped := by
  obtain ⟨inputs, hcurrent, hreads⟩ := h
  obtain ⟨config, definitions, hcompile⟩ := plan.accepted
  obtain ⟨compiled, hacc⟩ := compile_ok hcompile
  have hfull := reset_current hacc (inputsOf values plan.plan.baseVariables) stamp
  have hlookup : ∀ name, inputs.lookup name =
      (inputsOf values plan.plan.baseVariables).lookup name := by
    intro name
    rw [lookup_inputsOf]
    split
    · rename_i hname
      exact hreads.value name hname (by simp)
    · rename_i hname
      exact AList.lookup_eq_none.mpr fun hmem => hname (hreads.base name hmem)
  have hwritten : writeInputs (fun _ => none) inputs =
      writeInputs (fun _ => none) (inputsOf values plan.plan.baseVariables) := by
    funext name
    rw [writeInputs_apply, writeInputs_apply, hlookup]
  have hvars := Dataflow.Settled.unique (cells_ordered hacc) hcurrent.settled
    (hwritten ▸ hfull.settled)
  rw [fullResults, hcurrent.results_eq, hfull.results_eq, hvars]

theorem publishedInFull_of_inv {s : Situation F64 F32} (h : Inv s) (hidle : s.worker = .idle)
    (hfull : s.service.full = false) (hdirty : s.service.dirty = []) (hknown : s.unannounced = []) :
    PublishedInFull s := by
  unfold PublishedInFull
  split
  · rename_i hplan
    intro name
    cases hr : s.service.results name with
    | none => rfl
    | some r =>
      obtain ⟨plan, hp, -⟩ := h.keys name r hr
      rw [hplan] at hp
      cases hp
  · rename_i plan hplan
    intro stamp name
    obtain ⟨runner, hrunner, -⟩ := h.shape plan hplan
    have hprogress := h.progress hfull plan runner hplan hrunner
    simp only [Progress, hidle, Situation.stale, hdirty, hknown] at hprogress
    obtain ⟨hsettles, hpublished⟩ := hprogress
    rw [← settles_full hsettles stamp, hpublished name, List.find?_map]
    rfl

theorem inputChanged_results (s : Service F64 F32) (name : String) :
    (s.inputChanged name).results = s.results := by
  unfold Service.inputChanged
  split
  · rfl
  · rename_i plan _
    obtain ⟨dirty, heq, -⟩ := markDirty_fields s plan name
    rw [heq]

theorem stateChanged_results (s : Service F64 F32) (installs : Nat) (name signature : String) :
    (s.stateChanged installs name signature).2.results = s.results := by
  unfold Service.stateChanged
  split
  · rfl
  · rename_i plan _
    split
    · rfl
    · split
      · obtain ⟨dirty, heq, -⟩ := markDirty_fields { s with
          stateSeen := Function.update s.stateSeen name signature
          stateEventPending := true } plan name
        rw [heq]
      · rfl

/-- Only an evaluation of the present generation replaces what is published. -/
theorem results_replaced {s s' : Situation F64 F32} {a : Step F64 F32} (h : Inv s)
    (hstep : step s a = some s') (hne : s'.service.results ≠ s.service.results) :
    (∃ plan version, a = .install plan version) ∨
    ∃ run changed results, s.worker = .computed run changed results ∧
      run.generation = s.service.generation ∧ s.service.plan = some run.plan := by
  cases moved_of_step hstep with
  | install plan version => exact .inl ⟨plan, version, rfl⟩
  | @published run changed results hworker now =>
    refine .inr ⟨run, changed, results, hworker, ?_⟩
    have hgeneration : run.generation = s.service.generation := by
      by_contra hold
      exact hne (by simp [Service.publish, hold])
    have hf := h.follows run (by rw [hworker]; rfl)
    exact ⟨hgeneration, hf.own (hf.same hgeneration)⟩
  | change name value => exact absurd rfl hne
  | inputChanged name => exact absurd (inputChanged_results _ _) hne
  | stateChanged installs name signature => exact absurd (stateChanged_results _ _ _ _) hne
  | invalidate routeChanged =>
    refine absurd ?_ hne
    simp only [Service.invalidate]
    split <;> rfl
  | stayed => exact absurd rfl hne
  | started hworker hstart =>
    obtain ⟨plan, runner, -, -, -, -, rfl⟩ := start_eq_some hstart
    exact absurd rfl hne
  | read hworker hname => exact absurd rfl hne
  | resolveFailed hworker =>
    refine absurd ?_ hne
    simp only [Service.resolveFailed]
    split <;> rfl
  | computed hworker now =>
    refine absurd ?_ hne
    dsimp only
    split <;> rfl

/-- In every state of every run: without an evaluation under way, a full evaluation asked for,
a mark or an unannounced change, the published results are those of a full evaluation; and what
was computed for a generation that has passed is not published. -/
theorem published_results_current {s : Situation F64 F32} {plan : Option (ValidPlan F64 F32)}
    {version : UInt64} {values : String → Input F64 F32} {as : List (Step F64 F32)}
    (h : exec step (.init plan version values) as = some s) :
    (s.worker = .idle → s.service.full = false → s.service.dirty = [] → s.unannounced = [] →
      PublishedInFull s) ∧
    ∀ a s', step s a = some s' → s'.service.results ≠ s.service.results →
      (∃ plan version, a = .install plan version) ∨
      ∃ run changed results, s.worker = .computed run changed results ∧
        run.generation = s.service.generation ∧ s.service.plan = some run.plan :=
  ⟨publishedInFull_of_inv (inv_exec h), fun _ _ => results_replaced (inv_exec h)⟩

end Invariant

/-! ## A state input -/

namespace Link

def config : Config Int where
  rules := [⟨"OUT", .uint32, "LINK", 2 ^ 64, -2 ^ 64, 0⟩]
  stateInputs := [⟨"LINK", "fixed", "", [⟨"s", "p", "d"⟩]⟩]

def plan : Option (ValidPlan Int Int) := ValidPlan.ofConfig config none

def state (n : UInt32) (observed : Time) : Input Int Int := ⟨.uint32, .uint32 n, statusGood, observed⟩

def init : Situation Int Int := .init plan 1 fun _ => state 1 1

/-- The state is seen, and the first full evaluation published. -/
def first : List (Step Int Int) :=
  [.stateChanged 1 "LINK" "1/0/&\x7bs p d\x7d/", .start, .read "LINK", .compute 10, .publish 10]

/-- A later observation of the same state. -/
def heartbeat : List (Step Int Int) :=
  first ++ [.change "LINK" (state 1 2), .stateChanged 1 "LINK" "1/0/&\x7bs p d\x7d/"]

/-- A full evaluation reads a state that has changed back when the service looks at it. -/
def flicker : List (Step Int Int) :=
  first ++ [.invalidate false, .start, .change "LINK" (state 2 2), .read "LINK", .compute 20,
    .publish 20, .change "LINK" (state 1 3), .stateChanged 1 "LINK" "1/0/&\x7bs p d\x7d/"]

def isQuiet (s : Situation Int Int) : Bool :=
  (match s.worker with
    | .idle => true
    | _ => false) && !s.service.full && s.service.dirty.isEmpty

def isStale (s : Situation Int Int) : Bool :=
  match s.service.plan with
  | none => false
  | some plan => (s.service.results "OUT").map Result.unstamped !=
      ((fullResults plan.plan s.values ⟨0, 0, 0⟩).map Result.unstamped).find? fun r =>
        r.nodeID == "OUT"

theorem quiet_of_isQuiet {s : Situation Int Int} (h : isQuiet s = true) :
    s.worker = .idle ∧ s.service.full = false ∧ s.service.dirty = [] := by
  simp only [isQuiet, Bool.and_eq_true, Bool.not_eq_true', List.isEmpty_iff] at h
  obtain ⟨⟨hworker, hfull⟩, hdirty⟩ := h
  refine ⟨?_, hfull, hdirty⟩
  split at hworker
  · assumption
  · cases hworker

theorem not_published_of_isStale {s : Situation Int Int} (h : isStale s = true) :
    ¬ PublishedInFull s := by
  intro hfull
  unfold PublishedInFull at hfull
  unfold isStale at h
  split at h
  · cases h
  · rename_i plan hplan
    simp only [hplan] at hfull
    exact bne_iff_ne.mp h (hfull ⟨0, 0, 0⟩ "OUT")

theorem exists_stale {as : List (Step Int Int)}
    (h : (exec step init as).any (fun s => isQuiet s && isStale s) = true) :
    ∃ s, exec step init as = some s ∧ s.worker = .idle ∧ s.service.full = false ∧
      s.service.dirty = [] ∧ ¬ PublishedInFull s := by
  cases hs : exec step init as with
  | none => simp [hs] at h
  | some s =>
    rw [hs, Option.any_some] at h
    obtain ⟨hquiet, hstale⟩ := Bool.and_eq_true_iff.mp h
    obtain ⟨hworker, hfull, hdirty⟩ := quiet_of_isQuiet hquiet
    exact ⟨s, rfl, hworker, hfull, hdirty, not_published_of_isStale hstale⟩

end Link

/-- Both runs leave nothing to do, although every change is followed by `stateChanged`. -/
theorem state_change_unpublished :
    (∃ s, exec step Link.init Link.heartbeat = some s ∧ s.worker = .idle ∧
      s.service.full = false ∧ s.service.dirty = [] ∧ ¬ PublishedInFull s) ∧
    ∃ s, exec step Link.init Link.flicker = some s ∧ s.worker = .idle ∧
      s.service.full = false ∧ s.service.dirty = [] ∧ ¬ PublishedInFull s :=
  ⟨Link.exists_stale (by decide +kernel), Link.exists_stale (by decide +kernel)⟩

theorem published_results_current_link : ∃ s, exec step Link.init Link.first = some s ∧
    s.worker = .idle ∧ PublishedInFull s := by
  have hquiet : (exec step Link.init Link.first).any
      (fun s => Link.isQuiet s && s.unannounced.isEmpty) = true := by decide +kernel
  cases hs : exec step Link.init Link.first with
  | none => simp [hs] at hquiet
  | some s =>
    simp only [hs, Option.any_some, Bool.and_eq_true, List.isEmpty_iff] at hquiet
    obtain ⟨hworker, hfull, hdirty⟩ := Link.quiet_of_isQuiet hquiet.1
    exact ⟨s, rfl, hworker, (published_results_current hs).1 hworker hfull hdirty hquiet.2⟩

end RcdServer.Calc.Go
