import RcdServer.Calc.Go.Expression
import RcdServer.Opc.Nodes

/-!
# What the nodes show

The nodes and the calculation context after any sequence of synchronisations and updates, as a
function of the last status applied for each device. A device without one shows its entry of the
initial baseline.
-/
namespace RcdServer.Opc.Nodes

open Calc Calc.Rust
open Calc.Go (Mentions)
open Protocol (Value)

variable {ι F64 F32 : Type}

/-! ## Writes of nodes -/

theorem setValues_append (nodes : String → DataValue F32 F64)
    (us vs : List (String × DataValue F32 F64)) :
    setValues nodes (us ++ vs) = setValues (setValues nodes us) vs :=
  List.foldl_append

theorem setValues_of_notMem {nodes : String → DataValue F32 F64}
    {us : List (String × DataValue F32 F64)} {kks : String} (h : ∀ u ∈ us, u.1 ≠ kks) :
    setValues nodes us kks = nodes kks := by
  induction us generalizing nodes with
  | nil => rfl
  | cons u us ih =>
    have hu := h u List.mem_cons_self
    change setValues (Function.update nodes u.1 u.2) us kks = nodes kks
    rw [ih fun v hv => h v (List.mem_cons_of_mem u hv), Function.update_of_ne hu.symm]

theorem setValues_of_forall {nodes : String → DataValue F32 F64}
    {us : List (String × DataValue F32 F64)} {kks : String} {v : DataValue F32 F64}
    (hall : ∀ u ∈ us, u.1 = kks → u.2 = v) (hmem : ∃ u ∈ us, u.1 = kks) :
    setValues nodes us kks = v := by
  induction us generalizing nodes with
  | nil =>
    obtain ⟨u, hu, -⟩ := hmem
    cases hu
  | cons u us ih =>
    change setValues (Function.update nodes u.1 u.2) us kks = v
    by_cases hlater : ∃ w ∈ us, w.1 = kks
    · exact ih (fun w hw => hall w (List.mem_cons_of_mem u hw)) hlater
    · rw [setValues_of_notMem fun w hw heq => hlater ⟨w, hw, heq⟩]
      obtain ⟨w, hw, hname⟩ := hmem
      rcases List.mem_cons.mp hw with rfl | hw
      · rw [← hname, Function.update_self]
        exact hall w List.mem_cons_self hname
      · exact absurd ⟨w, hw, hname⟩ hlater

/-- A node that is written does not keep what it was. -/
theorem setValues_congr {nodes nodes' : String → DataValue F32 F64}
    {us : List (String × DataValue F32 F64)} {kks : String} (hmem : ∃ u ∈ us, u.1 = kks) :
    setValues nodes us kks = setValues nodes' us kks := by
  induction us generalizing nodes nodes' with
  | nil =>
    obtain ⟨u, hu, -⟩ := hmem
    cases hu
  | cons u us ih =>
    change setValues (Function.update nodes u.1 u.2) us kks =
      setValues (Function.update nodes' u.1 u.2) us kks
    by_cases hlater : ∃ w ∈ us, w.1 = kks
    · exact ih hlater
    · rw [setValues_of_notMem fun w hw heq => hlater ⟨w, hw, heq⟩,
        setValues_of_notMem fun w hw heq => hlater ⟨w, hw, heq⟩]
      obtain ⟨w, hw, hname⟩ := hmem
      rcases List.mem_cons.mp hw with rfl | hw
      · rw [← hname, Function.update_self, Function.update_self]
      · exact absurd ⟨w, hw, hname⟩ hlater

/-! ## Evaluation -/

section

variable [FloatOps F64 F32]

/-- Evaluation looks at no name that the expression does not mention. -/
theorem evaluateWithValidity_congr {vars vars' : Variables F64} {valid valid' : Validity}
    (e : Expr F64)
    (h : ∀ name, Mentions name e → vars name = vars' name ∧ valid name = valid' name) :
    evaluateWithValidity vars valid e = evaluateWithValidity vars' valid' e := by
  induction e with
  | literal v => rfl
  | var name =>
    obtain ⟨hvars, hvalid⟩ := h name rfl
    simp only [evaluateWithValidity, hvars, hvalid]
  | unary op operand ih => simp only [evaluateWithValidity, ih h]
  | binary op left right ihl ihr =>
    have hl := ihl fun name hn => h name (.inl hn)
    have hr := ihr fun name hn => h name (.inr hn)
    cases op <;> simp only [evaluateWithValidity, hl, hr]
  | ite c t e ihc iht ihe =>
    have hc := ihc fun name hn => h name (.inl hn)
    have ht := iht fun name hn => h name (.inr (.inl hn))
    have he := ihe fun name hn => h name (.inr (.inr hn))
    simp only [evaluateWithValidity, hc, ht, he]

theorem runRules_congr (rules : List (CompiledRule F64)) {vars vars' : Variables F64}
    {valid valid' : Validity}
    (h : ∀ rule ∈ rules, ∀ name, Mentions name rule.ast →
      vars name = vars' name ∧ valid name = valid' name) :
    runRules rules vars valid = runRules rules vars' valid' := by
  induction rules generalizing vars vars' valid valid' with
  | nil => rfl
  | cons rule rules ih =>
    have heval : evaluateRule rule vars valid = evaluateRule rule vars' valid' := by
      simp only [evaluateRule, evaluateWithValidity_congr rule.ast (h rule List.mem_cons_self)]
    simp only [runRules, heval]
    congr 1
    refine ih fun later hlater name hname => ?_
    obtain ⟨hvars, hvalid⟩ := h later (List.mem_cons_of_mem rule hlater) name hname
    by_cases heq : name = rule.kksCalc
    · simp only [heq, Function.update_self, and_self]
    · simp only [Function.update_of_ne heq, hvars, hvalid, and_self]

theorem runRules_names (rules : List (CompiledRule F64)) (vars : Variables F64) (valid : Validity) :
    (runRules rules vars valid).map Prod.fst = rules.map (·.kksCalc) := by
  induction rules generalizing vars valid with
  | nil => rfl
  | cons rule rules ih => simp only [runRules, List.map_cons, ih]

end

/-! ## Contexts -/

variable [FloatOps F64 F32]

def CalcRunner.entry (r : CalcRunner F64) (kks : String) : Option (EvalValue F64) × Option Bool :=
  (r.globalVars kks, r.validVars kks)

def Site.entry (site : Site ι F64 F32) (st : DeviceStatus ι) (kks : String) :
    Option (EvalValue F64) × Option Bool :=
  ((site.value st kks).map fromModelValue, some st.valid)

omit [FloatOps F64 F32] in
theorem Site.value_of_mem {site : Site ι F64 F32} {st : DeviceStatus ι} {kks : String}
    (h : kks ∈ site.keys st.device) : ∃ v, site.value st kks = some v :=
  Option.isSome_iff_exists.mp ((site.parse_isSome st.device st.data kks).mpr h)

omit [FloatOps F64 F32] in
theorem Site.value_of_notMem {site : Site ι F64 F32} {st : DeviceStatus ι} {kks : String}
    (h : kks ∉ site.keys st.device) : site.value st kks = none := by
  have hnone := (not_congr (site.parse_isSome st.device st.data kks)).mpr h
  simpa [Site.value] using hnone

theorem accumulate_mem {site : Site ι F64 F32} {r : CalcRunner F64} {st : DeviceStatus ι}
    {kks : String} (h : kks ∈ site.keys st.device) :
    (r.accumulate site st).entry kks = site.entry st kks := by
  obtain ⟨v, hv⟩ := Site.value_of_mem h
  simp [CalcRunner.entry, CalcRunner.accumulate, Site.entry, hv]

theorem accumulate_notMem {site : Site ι F64 F32} {r : CalcRunner F64} {st : DeviceStatus ι}
    {kks : String} (h : kks ∉ site.keys st.device) :
    (r.accumulate site st).entry kks = r.entry kks := by
  simp [CalcRunner.entry, CalcRunner.accumulate, Site.value_of_notMem h]

/-- One status for each device. -/
def Single (statuses : List (DeviceStatus ι)) : Prop := (statuses.map (·.device)).Nodup

omit [FloatOps F64 F32] in
theorem Single.eq {statuses : List (DeviceStatus ι)} (h : Single statuses) {a b : DeviceStatus ι}
    (ha : a ∈ statuses) (hb : b ∈ statuses) (hdevice : a.device = b.device) : a = b :=
  List.inj_on_of_nodup_map h ha hb hdevice

theorem fold_notMem {site : Site ι F64 F32} {statuses : List (DeviceStatus ι)}
    {r : CalcRunner F64} {kks : String} (h : ∀ st ∈ statuses, kks ∉ site.keys st.device) :
    (statuses.foldl (CalcRunner.accumulate site) r).entry kks = r.entry kks := by
  induction statuses generalizing r with
  | nil => rfl
  | cons st statuses ih =>
    rw [List.foldl_cons, ih fun other hother => h other (List.mem_cons_of_mem st hother),
      accumulate_notMem (h st List.mem_cons_self)]

theorem fold_mem {site : Site ι F64 F32} {statuses : List (DeviceStatus ι)} (hsingle : Single statuses)
    {r : CalcRunner F64} {st : DeviceStatus ι} {kks : String} (hst : st ∈ statuses)
    (hkks : kks ∈ site.keys st.device) :
    (statuses.foldl (CalcRunner.accumulate site) r).entry kks = site.entry st kks := by
  induction statuses generalizing r with
  | nil => cases hst
  | cons head statuses ih =>
    obtain ⟨hhead, hrest⟩ := List.nodup_cons.mp hsingle
    rw [List.foldl_cons]
    rcases List.mem_cons.mp hst with rfl | hst
    · rw [fold_notMem, accumulate_mem hkks]
      intro other hother hkey
      have hsame := site.disjoint _ _ kks hkks hkey
      exact hhead (List.mem_map.mpr ⟨other, hother, hsame.symm⟩)
    · exact ih hrest hst

/-! ## The context of applied statuses -/

/-- A formula reads the name. -/
def Site.Reads (site : Site ι F64 F32) (kks : String) : Prop :=
  ∃ rule ∈ site.engine.rules, Mentions kks rule.ast

def SameRead (site : Site ι F64 F32) (r r' : CalcRunner F64) : Prop :=
  ∀ kks, site.Reads kks → r.entry kks = r'.entry kks

theorem SameRead.run {site : Site ι F64 F32} {r r' : CalcRunner F64} (h : SameRead site r r') :
    r.runWithQuality site = r'.runWithQuality site := by
  refine runRules_congr _ fun rule hrule name hname => ?_
  exact Prod.mk.inj (h name ⟨rule, hrule, hname⟩)

def statusOf (site : Site ι F64 F32) (applied : ι → Option (DeviceStatus ι)) (d : ι) :
    DeviceStatus ι :=
  (applied d).getD (site.zeroStatus d)

/-- Statuses are kept under their own device. -/
def Filed (applied : ι → Option (DeviceStatus ι)) : Prop :=
  ∀ d st, applied d = some st → st.device = d

omit [FloatOps F64 F32] in
theorem statusOf_device {site : Site ι F64 F32} {applied : ι → Option (DeviceStatus ι)}
    (h : Filed applied) (d : ι) : (statusOf site applied d).device = d := by
  cases hd : applied d with
  | none => simp [statusOf, hd, Site.zeroStatus]
  | some st => simpa [statusOf, hd] using h d st hd

omit [FloatOps F64 F32] in
theorem single_merge {site : Site ι F64 F32} {applied : ι → Option (DeviceStatus ι)}
    (h : Filed applied) : Single (mergeInitialStatuses site applied) := by
  have hdevices : (mergeInitialStatuses site applied).map (·.device) = site.devices := by
    rw [mergeInitialStatuses, List.map_map]
    exact List.map_id'' (fun d => statusOf_device h d) _
  unfold Single
  rw [hdevices]
  exact site.nodup

omit [FloatOps F64 F32] in
theorem statusOf_mem {site : Site ι F64 F32} (applied : ι → Option (DeviceStatus ι)) (d : ι) :
    statusOf site applied d ∈ mergeInitialStatuses site applied :=
  List.mem_map.mpr ⟨d, site.complete d, rfl⟩

/-- The context that has every device, with its baseline where nothing was applied. -/
def fullContext (site : Site ι F64 F32) (applied : ι → Option (DeviceStatus ι)) : CalcRunner F64 :=
  (mergeInitialStatuses site applied).foldl (CalcRunner.accumulate site) .new

theorem fullContext_mem {site : Site ι F64 F32} {applied : ι → Option (DeviceStatus ι)}
    (h : Filed applied) {d : ι} {kks : String} (hkks : kks ∈ site.keys d) :
    (fullContext site applied).entry kks = site.entry (statusOf site applied d) kks :=
  fold_mem (single_merge h) (statusOf_mem applied d) (by rw [statusOf_device h]; exact hkks)

theorem fullContext_notMem {site : Site ι F64 F32} {applied : ι → Option (DeviceStatus ι)}
    {kks : String} (hkks : ∀ d, kks ∉ site.keys d) :
    (fullContext site applied).entry kks = CalcRunner.new.entry kks := by
  refine fold_notMem fun st hst hkey => ?_
  exact hkks st.device hkey

variable [DecidableEq ι]

omit [FloatOps F64 F32] in
theorem Filed.update {applied : ι → Option (DeviceStatus ι)} (h : Filed applied)
    (st : DeviceStatus ι) : Filed (Function.update applied st.device (some st)) := by
  intro d other hother
  by_cases hd : d = st.device
  · rw [hd, Function.update_self] at hother
    rw [hd, Option.some.inj hother]
  · rw [Function.update_of_ne hd] at hother
    exact h d other hother

theorem SameRead.accumulate {site : Site ι F64 F32} {applied : ι → Option (DeviceStatus ι)}
    {r : CalcRunner F64} {st : DeviceStatus ι} (hfiled : Filed applied)
    (h : SameRead site r (fullContext site applied)) :
    SameRead site (r.accumulate site st)
      (fullContext site (Function.update applied st.device (some st))) := by
  intro kks hread
  by_cases hkks : kks ∈ site.keys st.device
  · rw [accumulate_mem hkks, fullContext_mem (hfiled.update st) hkks]
    simp [statusOf]
  · rw [accumulate_notMem hkks, h kks hread]
    by_cases hkey : ∃ d, kks ∈ site.keys d
    · obtain ⟨d, hd⟩ := hkey
      have hne : d ≠ st.device := by
        rintro rfl
        exact hkks hd
      rw [fullContext_mem hfiled hd, fullContext_mem (hfiled.update st) hd]
      simp [statusOf, Function.update_of_ne hne]
    · have hnone : ∀ d, kks ∉ site.keys d := fun d hd => hkey ⟨d, hd⟩
      rw [fullContext_notMem hnone, fullContext_notMem hnone]

/-! ## Which nodes an update writes -/

section

omit [DecidableEq ι]

theorem mem_deviceUpdates {site : Site ι F64 F32} {st : DeviceStatus ι} {unavailable : StatusCode}
    {u : String × DataValue F32 F64} :
    u ∈ collectDeviceUpdates site st unavailable ↔
      u.1 ∈ site.keys st.device ∧ site.hasNode u.1 = true ∧
        ∃ v, site.value st u.1 = some v ∧ u.2 = pointUpdate st unavailable v := by
  rw [collectDeviceUpdates, List.mem_filterMap]
  constructor
  · rintro ⟨kks, hkks, hu⟩
    split_ifs at hu with hnode
    obtain ⟨v, hv, rfl⟩ := Option.map_eq_some_iff.mp hu
    exact ⟨hkks, hnode, v, hv, rfl⟩
  · rintro ⟨hkks, hnode, v, hv, hu⟩
    refine ⟨u.1, hkks, ?_⟩
    rw [if_pos hnode, hv, Option.map_some, ← hu]

omit [FloatOps F64 F32] in
theorem mem_calcUpdates {site : Site ι F64 F32} {results : List (String × Value F32 F64 × Bool)}
    {unavailable : StatusCode} {u : String × DataValue F32 F64}
    (h : u ∈ collectCalcUpdates site results unavailable) :
    u.1 ∈ results.map Prod.fst ∧ site.hasNode u.1 = true := by
  obtain ⟨⟨kks, val, valid⟩, hresult, hu⟩ := List.mem_filterMap.mp h
  simp only at hu
  by_cases hnode : site.hasNode kks = true
  · rw [if_pos hnode] at hu
    cases hu
    exact ⟨List.mem_map.mpr ⟨_, hresult, rfl⟩, hnode⟩
  · rw [if_neg hnode] at hu
    cases hu

omit [FloatOps F64 F32] in
theorem calcUpdate_exists {site : Site ι F64 F32} {results : List (String × Value F32 F64 × Bool)}
    {unavailable : StatusCode} {kks : String} (hname : kks ∈ results.map Prod.fst)
    (hnode : site.hasNode kks = true) :
    ∃ u ∈ collectCalcUpdates site results unavailable, u.1 = kks := by
  obtain ⟨⟨name, val, valid⟩, hresult, rfl⟩ := List.mem_map.mp hname
  let written : String × DataValue F32 F64 :=
    (name, ⟨valueToVariant val, if valid then .good else unavailable⟩)
  exact ⟨written, List.mem_filterMap.mpr ⟨_, hresult, if_pos hnode⟩, rfl⟩

/-- What a step writes for devices: of each status its points. -/
def deviceUpdates (site : Site ι F64 F32) (statuses : List (DeviceStatus ι))
    (unavailable : ι → StatusCode) : List (String × DataValue F32 F64) :=
  statuses.flatMap fun st => collectDeviceUpdates site st (unavailable st.device)

theorem deviceUpdates_mem {site : Site ι F64 F32} {statuses : List (DeviceStatus ι)}
    {unavailable : ι → StatusCode} {nodes : String → DataValue F32 F64} {st : DeviceStatus ι}
    {kks : String} {v : Value F32 F64} (hsingle : Single statuses) (hst : st ∈ statuses)
    (hkks : kks ∈ site.keys st.device) (hnode : site.hasNode kks = true)
    (hv : site.value st kks = some v) :
    setValues nodes (deviceUpdates site statuses unavailable) kks =
      pointUpdate st (unavailable st.device) v := by
  refine setValues_of_forall ?_ ?_
  · rintro u hu rfl
    obtain ⟨other, hother, hu⟩ := List.mem_flatMap.mp hu
    obtain ⟨hkey, -, w, hw, heq⟩ := mem_deviceUpdates.mp hu
    obtain rfl := hsingle.eq hother hst (site.disjoint _ _ u.1 hkey hkks)
    rw [hv] at hw
    rw [heq, Option.some.inj hw]
  · refine ⟨(kks, pointUpdate st (unavailable st.device) v), ?_, rfl⟩
    exact List.mem_flatMap.mpr ⟨st, hst, mem_deviceUpdates.mpr ⟨hkks, hnode, v, hv, rfl⟩⟩

theorem deviceUpdates_notMem {site : Site ι F64 F32} {statuses : List (DeviceStatus ι)}
    {unavailable : ι → StatusCode} {nodes : String → DataValue F32 F64} {kks : String}
    (h : site.hasNode kks = false ∨ ∀ st ∈ statuses, kks ∉ site.keys st.device) :
    setValues nodes (deviceUpdates site statuses unavailable) kks = nodes kks := by
  refine setValues_of_notMem ?_
  rintro u hu rfl
  obtain ⟨st, hst, hu⟩ := List.mem_flatMap.mp hu
  obtain ⟨hkey, hnode, -⟩ := mem_deviceUpdates.mp hu
  rcases h with h | h
  · rw [h] at hnode
    cases hnode
  · exact h st hst hkey

/-! ## Points -/

/-- What the node of a point shows: its last status, or the baseline of the start. -/
def pointValue (site : Site ι F64 F32) (applied : ι → Option (DeviceStatus ι)) (d : ι)
    (kks : String) : Option (DataValue F32 F64) :=
  (site.value (statusOf site applied d) kks).map
    (pointUpdate (statusOf site applied d) (pointUnavailable applied d))

omit [FloatOps F64 F32] in
/-- Neither a point nor an output, or no node at all. -/
def Site.Other (site : Site ι F64 F32) (kks : String) : Prop :=
  site.hasNode kks = false ∨ ((∀ d, kks ∉ site.keys d) ∧ kks ∉ site.engine.outputNames)

structure Points (site : Site ι F64 F32) (nodes₀ : String → DataValue F32 F64)
    (applied : ι → Option (DeviceStatus ι)) (nodes : String → DataValue F32 F64) : Prop where
  point : ∀ d kks, kks ∈ site.keys d → site.hasNode kks = true →
    some (nodes kks) = pointValue site applied d kks
  rest : ∀ kks, site.Other kks → nodes kks = nodes₀ kks

/-- The results write only outputs. -/
def Outputs (site : Site ι F64 F32) (results : List (String × Value F32 F64 × Bool)) : Prop :=
  results.map Prod.fst = site.engine.outputNames

omit [FloatOps F64 F32] in
theorem calcUpdates_point {site : Site ι F64 F32} {results : List (String × Value F32 F64 × Bool)}
    {unavailable : StatusCode} {nodes : String → DataValue F32 F64} {kks : String}
    (hresults : Outputs site results)
    (h : site.hasNode kks = false ∨ kks ∉ site.engine.outputNames) :
    setValues nodes (collectCalcUpdates site results unavailable) kks = nodes kks := by
  refine setValues_of_notMem ?_
  rintro u hu rfl
  obtain ⟨hname, hnode⟩ := mem_calcUpdates hu
  rcases h with h | h
  · rw [h] at hnode
    cases hnode
  · exact h (hresults ▸ hname)

theorem run_outputs (site : Site ι F64 F32) (r : CalcRunner F64) :
    Outputs site (r.runWithQuality site) :=
  runRules_names ..

theorem rebuild_outputs (site : Site ι F64 F32) (statuses : List (DeviceStatus ι)) :
    Outputs site (CalcRunner.rebuildFromStatusesWithQuality site statuses).2 := by
  unfold CalcRunner.rebuildFromStatusesWithQuality
  split_ifs with hempty
  · simp [Outputs, CalcEngine.outputNames, List.isEmpty_iff.mp hempty]
  · exact run_outputs ..

theorem update_outputs (site : Site ι F64 F32) (r : CalcRunner F64) (st : DeviceStatus ι) :
    Outputs site (r.onUpdateWithQuality site st).2 := by
  unfold CalcRunner.onUpdateWithQuality
  split_ifs with hempty
  · simp [Outputs, CalcEngine.outputNames, List.isEmpty_iff.mp hempty]
  · exact run_outputs ..

/-- One write of statuses and results: the points of these statuses are new, the other points and
all other nodes stay. -/
theorem Points.write {site : Site ι F64 F32} {nodes₀ nodes : String → DataValue F32 F64}
    {applied : ι → Option (DeviceStatus ι)} {statuses : List (DeviceStatus ι)}
    {unavailable : ι → StatusCode} {results : List (String × Value F32 F64 × Bool)}
    {calcCode : StatusCode} (hresults : Outputs site results) (hsingle : Single statuses)
    (hnew : ∀ st ∈ statuses, statusOf site applied st.device = st ∧
      unavailable st.device = pointUnavailable applied st.device)
    (hold : ∀ d, (∀ st ∈ statuses, st.device ≠ d) → ∀ kks ∈ site.keys d, site.hasNode kks = true →
      some (nodes kks) = pointValue site applied d kks)
    (hrest : ∀ kks, site.Other kks → nodes kks = nodes₀ kks) :
    Points site nodes₀ applied (setValues nodes
      (deviceUpdates site statuses unavailable ++ collectCalcUpdates site results calcCode)) where
  point d kks hkks hnode := by
    rw [setValues_append, calcUpdates_point hresults (.inr (site.outputs d kks hkks))]
    by_cases hst : ∃ st ∈ statuses, st.device = d
    · obtain ⟨st, hst, rfl⟩ := hst
      obtain ⟨v, hv⟩ := Site.value_of_mem hkks
      obtain ⟨hstatus, hcode⟩ := hnew st hst
      rw [deviceUpdates_mem hsingle hst hkks hnode hv, pointValue, hstatus, hv, hcode, Option.map_some]
    · have hother : ∀ st ∈ statuses, st.device ≠ d := fun st hmem hd => hst ⟨st, hmem, hd⟩
      have hskip : ∀ st ∈ statuses, kks ∉ site.keys st.device := fun st hmem hkey =>
        hother st hmem (site.disjoint _ _ kks hkey hkks)
      rw [deviceUpdates_notMem (.inr hskip)]
      exact hold d hother kks hkks hnode
  rest kks hkks := by
    have hcalc : site.hasNode kks = false ∨ kks ∉ site.engine.outputNames := hkks.imp id And.right
    have hskip : site.hasNode kks = false ∨ ∀ st ∈ statuses, kks ∉ site.keys st.device :=
      hkks.imp id fun hk st _ => hk.1 st.device
    rw [setValues_append, calcUpdates_point hresults hcalc, deviceUpdates_notMem hskip]
    exact hrest kks hkks

/-- A point whose device keeps its status keeps its value. -/
theorem Points.keep {site : Site ι F64 F32} {nodes₀ nodes : String → DataValue F32 F64}
    {before after : ι → Option (DeviceStatus ι)} (h : Points site nodes₀ before nodes) {d : ι}
    (hd : after d = before d) {kks : String} (hkks : kks ∈ site.keys d)
    (hnode : site.hasNode kks = true) : some (nodes kks) = pointValue site after d kks := by
  rw [h.point d kks hkks hnode]
  simp only [pointValue, statusOf, pointUnavailable, hd]

/-! ## Outputs -/

def outputValue (site : Site ι F64 F32) (nodes₀ : String → DataValue F32 F64)
    (results : List (String × Value F32 F64 × Bool)) (unavailable : StatusCode) (kks : String) :
    DataValue F32 F64 :=
  setValues nodes₀ (collectCalcUpdates site results unavailable) kks

/-- The context agrees with that of all devices, and the outputs show its results. -/
structure Calculated (site : Site ι F64 F32) (nodes₀ : String → DataValue F32 F64)
    (applied : ι → Option (DeviceStatus ι)) (unavailable : StatusCode) (p : Picture F64 F32) :
    Prop where
  context : SameRead site p.runner (fullContext site applied)
  output : ∀ kks ∈ site.engine.outputNames, site.hasNode kks = true →
    p.nodes kks = outputValue site nodes₀ ((fullContext site applied).runWithQuality site)
      unavailable kks

theorem Calculated.write {site : Site ι F64 F32} {nodes₀ nodes : String → DataValue F32 F64}
    {applied : ι → Option (DeviceStatus ι)} {r : CalcRunner F64} {unavailable : StatusCode}
    {us : List (String × DataValue F32 F64)} (hcontext : SameRead site r (fullContext site applied)) :
    Calculated site nodes₀ applied unavailable
      ⟨setValues nodes (us ++ collectCalcUpdates site (r.runWithQuality site) unavailable), r⟩ where
  context := hcontext
  output kks hkks hnode := by
    have hname : kks ∈ (r.runWithQuality site).map Prod.fst := by
      rw [run_outputs site r]
      exact hkks
    change setValues nodes (us ++ collectCalcUpdates site (r.runWithQuality site) unavailable) kks = _
    rw [setValues_append, setValues_congr (calcUpdate_exists hname hnode), outputValue, hcontext.run]

/-- Without formulas there is nothing to agree on. -/
theorem Calculated.of_empty {site : Site ι F64 F32} {nodes₀ : String → DataValue F32 F64}
    {applied : ι → Option (DeviceStatus ι)} {unavailable : StatusCode} {p : Picture F64 F32}
    (h : site.engine.rules.isEmpty = true) : Calculated site nodes₀ applied unavailable p where
  context kks hread := by
    obtain ⟨rule, hrule, -⟩ := hread
    rw [List.isEmpty_iff.mp h] at hrule
    cases hrule
  output kks hkks := by
    simp [CalcEngine.outputNames, List.isEmpty_iff.mp h] at hkks

theorem points_unique {site : Site ι F64 F32} {nodes₀ : String → DataValue F32 F64}
    {applied : ι → Option (DeviceStatus ι)} {p q : Picture F64 F32}
    (hp : Points site nodes₀ applied p.nodes) (hq : Points site nodes₀ applied q.nodes) {d : ι}
    {kks : String} (hkks : kks ∈ site.keys d) : p.nodes kks = q.nodes kks := by
  cases hnode : site.hasNode kks with
  | false => rw [hp.rest kks (.inl hnode), hq.rest kks (.inl hnode)]
  | true => exact Option.some.inj ((hp.point d kks hkks hnode).trans (hq.point d kks hkks hnode).symm)

/-- The same statuses, the same pictures. -/
theorem nodes_unique {site : Site ι F64 F32} {nodes₀ : String → DataValue F32 F64}
    {applied : ι → Option (DeviceStatus ι)} {unavailable : StatusCode} {p q : Picture F64 F32}
    (hp : Points site nodes₀ applied p.nodes) (hq : Points site nodes₀ applied q.nodes)
    (hp' : Calculated site nodes₀ applied unavailable p)
    (hq' : Calculated site nodes₀ applied unavailable q) : p.nodes = q.nodes := by
  funext kks
  cases hnode : site.hasNode kks with
  | false => rw [hp.rest kks (.inl hnode), hq.rest kks (.inl hnode)]
  | true =>
    by_cases hkey : ∃ d, kks ∈ site.keys d
    · obtain ⟨d, hkks⟩ := hkey
      exact points_unique hp hq hkks
    · by_cases hout : kks ∈ site.engine.outputNames
      · rw [hp'.output kks hout hnode, hq'.output kks hout hnode]
      · have hrest : (∀ d, kks ∉ site.keys d) ∧ kks ∉ site.engine.outputNames :=
          ⟨fun d hd => hkey ⟨d, hd⟩, hout⟩
        rw [hp.rest kks (.inr hrest), hq.rest kks (.inr hrest)]

end

/-! ## The three writes of the task -/

omit [DecidableEq ι] in
theorem deviceUpdates_singleton (site : Site ι F64 F32) (st : DeviceStatus ι)
    (unavailable : ι → StatusCode) :
    deviceUpdates site [st] unavailable = collectDeviceUpdates site st (unavailable st.device) :=
  List.flatMap_singleton ..

theorem Points.apply {site : Site ι F64 F32} {nodes₀ : String → DataValue F32 F64}
    {applied : ι → Option (DeviceStatus ι)} {p : Picture F64 F32} {st : DeviceStatus ι}
    (h : Points site nodes₀ applied p.nodes) :
    Points site nodes₀ (Function.update applied st.device (some st)) (p.apply site st).nodes := by
  have hwrite : Points site nodes₀ (Function.update applied st.device (some st)) (setValues p.nodes
      (deviceUpdates site [st] (fun _ => .badNoCommunication) ++
        collectCalcUpdates site (p.runner.onUpdateWithQuality site st).2 .badNoCommunication)) := by
    refine .write (update_outputs site p.runner st) (List.nodup_singleton _) ?_ ?_ h.rest
    · intro other hother
      rw [List.mem_singleton.mp hother]
      simp [statusOf, pointUnavailable]
    · intro d hd kks hkks hnode
      exact h.keep (Function.update_of_ne (hd st List.mem_cons_self).symm ..) hkks hnode
  rw [deviceUpdates_singleton] at hwrite
  exact hwrite

theorem Calculated.apply {site : Site ι F64 F32} {nodes₀ : String → DataValue F32 F64}
    {applied : ι → Option (DeviceStatus ι)} {unavailable : StatusCode} {p : Picture F64 F32}
    {st : DeviceStatus ι} (hfiled : Filed applied) (h : Calculated site nodes₀ applied unavailable p) :
    Calculated site nodes₀ (Function.update applied st.device (some st)) .badNoCommunication
      (p.apply site st) := by
  cases hempty : site.engine.rules.isEmpty with
  | true => exact .of_empty hempty
  | false =>
    have hstep : p.runner.onUpdateWithQuality site st =
        (p.runner.accumulate site st, (p.runner.accumulate site st).runWithQuality site) := by
      simp [CalcRunner.onUpdateWithQuality, hempty]
    unfold Picture.apply
    rw [hstep]
    exact .write (h.context.accumulate hfiled)

section

omit [DecidableEq ι]

theorem mem_filed {cache : ι → Option (DeviceStatus ι)} (hfiled : Filed cache) {order : List ι}
    {st : DeviceStatus ι} :
    st ∈ order.filterMap cache ↔ st.device ∈ order ∧ cache st.device = some st := by
  rw [List.mem_filterMap]
  constructor
  · rintro ⟨d, hd, hcache⟩
    rw [hfiled d st hcache]
    exact ⟨hd, hcache⟩
  · rintro ⟨hd, hcache⟩
    exact ⟨st.device, hd, hcache⟩

theorem single_filed {cache : ι → Option (DeviceStatus ι)} (hfiled : Filed cache) {order : List ι}
    (horder : order.Nodup) : Single (order.filterMap cache) := by
  have hnodup : (order.filterMap cache).Nodup := by
    refine horder.filterMap ?_
    intro d e st hd he
    exact (hfiled d st hd).symm.trans (hfiled e st he)
  refine hnodup.map_on ?_
  intro a ha b hb hdevice
  have hsame := ((mem_filed hfiled).mp ha).2.symm.trans (hdevice ▸ ((mem_filed hfiled).mp hb).2)
  exact Option.some.inj hsame

omit [FloatOps F64 F32] in
theorem mem_snapshot {site : Site ι F64 F32} {cache : ι → Option (DeviceStatus ι)}
    (hfiled : Filed cache) {st : DeviceStatus ι} :
    st ∈ snapshotStatuses site cache ↔ cache st.device = some st := by
  rw [snapshotStatuses, mem_filed hfiled, site.ordered.mem_iff]
  exact and_iff_right (site.complete st.device)

omit [FloatOps F64 F32] in
theorem single_snapshot {site : Site ι F64 F32} {cache : ι → Option (DeviceStatus ι)}
    (hfiled : Filed cache) : Single (snapshotStatuses site cache) :=
  single_filed hfiled (site.ordered.nodup_iff.mpr site.nodup)

omit [FloatOps F64 F32] in
theorem cache_none_of_isEmpty {site : Site ι F64 F32} {cache : ι → Option (DeviceStatus ι)}
    (hfiled : Filed cache) (h : (snapshotStatuses site cache).isEmpty = true) (d : ι) :
    cache d = none := by
  cases hd : cache d with
  | none => rfl
  | some st =>
    have hmem : st ∈ snapshotStatuses site cache :=
      (mem_snapshot hfiled).mpr (by rw [hfiled d st hd]; exact hd)
    rw [List.isEmpty_iff.mp h] at hmem
    cases hmem

/-- After a resynchronisation the points show the cache. -/
theorem Points.fullSync {site : Site ι F64 F32} {nodes₀ : String → DataValue F32 F64}
    {applied cache : ι → Option (DeviceStatus ι)} {p : Picture F64 F32}
    (h : Points site nodes₀ applied p.nodes) (hfiled : Filed cache)
    (hknown : ∀ d, cache d = none → applied d = none) :
    Points site nodes₀ cache (p.fullSync site (snapshotStatuses site cache)).nodes := by
  unfold Picture.fullSync
  split_ifs with hempty
  · have hnone := cache_none_of_isEmpty hfiled hempty
    have hsame : cache = applied := funext fun d => (hnone d).trans (hknown d (hnone d)).symm
    rw [hsame]
    exact h
  · let statuses := snapshotStatuses site cache
    change Points site nodes₀ cache (setValues p.nodes
      (deviceUpdates site statuses (fun _ => .badNoCommunication) ++ collectCalcUpdates site
        (CalcRunner.rebuildFromStatusesWithQuality site statuses).2 .badNoCommunication))
    refine .write (rebuild_outputs site _) (single_snapshot hfiled) ?_ ?_ h.rest
    · intro st hst
      have hcache := (mem_snapshot hfiled).mp hst
      simp [statusOf, pointUnavailable, hcache]
    · intro d hd kks hkks hnode
      have hnone : cache d = none := by
        cases hcache : cache d with
        | none => rfl
        | some st =>
          have hdevice := hfiled d st hcache
          exact absurd hdevice (hd st ((mem_snapshot hfiled).mpr (by rw [hdevice]; exact hcache)))
      exact h.keep (hnone.trans (hknown d hnone).symm) hkks hnode

/-- The rebuilt context has what the formulas read, if every device they read has reported. -/
theorem sameRead_rebuild {site : Site ι F64 F32} {cache : ι → Option (DeviceStatus ι)}
    (hfiled : Filed cache)
    (hread : ∀ d, cache d = none → ∀ kks ∈ site.keys d, ¬ site.Reads kks) :
    SameRead site ((snapshotStatuses site cache).foldl (CalcRunner.accumulate site) .new)
      (fullContext site cache) := by
  intro kks hkks
  by_cases hkey : ∃ d, kks ∈ site.keys d
  · obtain ⟨d, hd⟩ := hkey
    cases hcache : cache d with
    | none => exact absurd hkks (hread d hcache kks hd)
    | some st =>
      obtain rfl := hfiled d st hcache
      rw [fold_mem (single_snapshot hfiled) ((mem_snapshot hfiled).mpr hcache) hd,
        fullContext_mem hfiled hd, statusOf, hcache]
      rfl
  · have hnone : ∀ d, kks ∉ site.keys d := fun d hd => hkey ⟨d, hd⟩
    rw [fold_notMem fun st _ => hnone st.device, fullContext_notMem hnone]

theorem Calculated.fullSync {site : Site ι F64 F32} {nodes₀ : String → DataValue F32 F64}
    {cache : ι → Option (DeviceStatus ι)} {p : Picture F64 F32} (hfiled : Filed cache)
    (hread : ∀ d, cache d = none → ∀ kks ∈ site.keys d, ¬ site.Reads kks)
    (hsome : (snapshotStatuses site cache).isEmpty = false) :
    Calculated site nodes₀ cache .badNoCommunication
      (p.fullSync site (snapshotStatuses site cache)) := by
  cases hempty : site.engine.rules.isEmpty with
  | true => exact .of_empty hempty
  | false =>
    simp only [Picture.fullSync, hsome, CalcRunner.rebuildFromStatusesWithQuality, hempty,
      Bool.false_eq_true, if_false]
    exact .write (sameRead_rebuild hfiled hread)

theorem Points.initial {site : Site ι F64 F32} {nodes₀ : String → DataValue F32 F64}
    {cached : ι → Option (DeviceStatus ι)} (hfiled : Filed cached) :
    Points site nodes₀ cached (initialSync site cached nodes₀).nodes := by
  refine .write (rebuild_outputs site _) (single_merge hfiled) ?_ ?_ fun _ _ => rfl
  · intro st hst
    obtain ⟨d, -, rfl⟩ := List.mem_map.mp hst
    change statusOf site cached (statusOf site cached d).device = statusOf site cached d ∧ _
    rw [statusOf_device hfiled]
    exact ⟨rfl, rfl⟩
  · intro d hd
    exact absurd (statusOf_device hfiled d) (hd _ (statusOf_mem cached d))

theorem Calculated.initial {site : Site ι F64 F32} {nodes₀ : String → DataValue F32 F64}
    (cached : ι → Option (DeviceStatus ι)) :
    Calculated site nodes₀ cached (calcUnavailable site cached) (initialSync site cached nodes₀) := by
  cases hempty : site.engine.rules.isEmpty with
  | true => exact .of_empty hempty
  | false =>
    simp only [initialSync, CalcRunner.rebuildFromStatusesWithQuality, hempty, Bool.false_eq_true,
      if_false]
    exact .write fun _ _ => rfl

end

end RcdServer.Opc.Nodes
