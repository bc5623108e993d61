import RcdServer.Operations.Validation
import RcdServer.Server.Startup

/-!
# The validation of a set against startup

What a set without a reported error gives: tables that agree on their ports and whose points have
different names, node names without repetitions, and rules that compile, are named apart, read
only what there is and wait for each other without a cycle. Startup, which reads the same files by
other functions, then drops and refuses nothing.
-/
namespace RcdServer.Operations.Files

open Calc (FloatOps)
open Calc.Rust (CalcEngine CalcRule CompiledRule compileRule compileRules extractVariables
  normalizeDataType parse tokenize)
open Lib (Kahn.Inv Kahn.WellFormed Kahn.inv_sort Kahn.queue_sort Kahn.sort Map Registers)
open Lib.Text
open Protocol (AtMostOneMark Config CsvReader DeviceConfig ReadsAlike Record parseCsv withoutMarks
  parseCsv_of_validated readsAlike_of_atMostOneMark validateCsvContentWithPointWarnings)
open Server (SameParameters deviceNames infrastructureNames loadAndGroupCsvConfigs
  loadAndGroupCsvConfigs_ok pointNames sendNames validateOpcuaKksNamespace)
open Serial (SerialPortConfig)

variable {F64 F32 : Type}

/-! ## Reports without an error -/

def Quiet (reports : List Report) : Prop := ∀ message, Report.error message ∉ reports

@[simp] theorem quiet_nil : Quiet [] := fun _ => List.not_mem_nil

@[simp] theorem quiet_append {a b : List Report} : Quiet (a ++ b) ↔ Quiet a ∧ Quiet b := by
  simp only [Quiet, List.mem_append, not_or, forall_and]

@[simp] theorem quiet_error {message : String} {reports : List Report} :
    ¬ Quiet (.error message :: reports) := fun h => h message List.mem_cons_self

@[simp] theorem quiet_warning {message : String} {reports : List Report} :
    Quiet (.warning message :: reports) ↔ Quiet reports := by
  simp [Quiet]

@[simp] theorem quiet_warnings {lines : List String} {text : String → String} :
    Quiet (lines.map fun line => .warning (text line)) := by
  simp [Quiet]

@[simp] theorem quiet_errorIf {condition : Bool} {message : String} :
    Quiet (errorIf condition message) ↔ condition = false := by
  cases condition <;> simp [errorIf]

@[simp] theorem quiet_repeated {α : Type} {owner : Option α} {line : α → String} :
    Quiet (owner.toList.map fun previous => .error (line previous)) ↔ owner = none := by
  cases owner <;> simp

@[simp] theorem quiet_flatMap {α : Type} {l : List α} {f : α → List Report} :
    Quiet (l.flatMap f) ↔ ∀ x ∈ l, Quiet (f x) := by
  simp only [Quiet, List.mem_flatMap, not_exists, not_and]
  exact ⟨fun h x hx message => h message x hx, fun h message x hx => h x hx message⟩

/-- A message is listed, or the notice that others were left out. -/
theorem boundedValidationMessage_ne_nil (m : Messages) (message : String) :
    (boundedValidationMessage m message).items ≠ [] := by
  unfold boundedValidationMessage
  split_ifs with hfull
  · intro hnil
    rw [hnil] at hfull
    cases hfull
  · dsimp only
    split_ifs <;> simp

theorem errors_report {v : Validation} {report : Report} :
    (v.report report).errors.items = [] ↔ v.errors.items = [] ∧ Quiet [report] := by
  cases report with
  | error message => simp [Validation.report, boundedValidationMessage_ne_nil]
  | warning message => simp [Validation.report]

/-- The list of errors is empty exactly if none was reported, however the messages are cut. -/
theorem errors_foldl {reports : List Report} {v : Validation} :
    (reports.foldl Validation.report v).errors.items = [] ↔ v.errors.items = [] ∧ Quiet reports := by
  induction reports generalizing v with
  | nil => simp
  | cons report reports ih =>
    rw [List.foldl_cons, ih, errors_report, and_assoc, ← quiet_append]
    rfl

/-! ## Point tables -/

section Tables

/-- The device of a table that passed its check. -/
def Checked (csv : CsvReader) (file : String × String) (d : DeviceConfig) : Prop :=
  (validateCsvContentWithPointWarnings csv file.2).2 = .ok (d.config, d.records)

theorem registers_points (name : String) :
    Registers (fun (s : Map String String × List Report) k => k ∈ s.1) (fun s => Quiet s.2)
      (addPoint name) (fun _ => True) (fun record => [record.kks]) where
  mem := by
    intro s record k
    rw [List.mem_singleton]
    exact AList.mem_insert s.1
  quiet_iff := by
    intro s record
    simp only [addPoint, quiet_append, quiet_repeated, AList.lookup_eq_none, true_and,
      List.nodup_singleton, List.mem_singleton, forall_eq]

/-- What the tables seen so far have put into the maps. -/
structure Collected (devices : List DeviceConfig) (s : Tables) : Prop where
  points : ∀ k, k ∈ s.pointOwners ↔ k ∈ devices.flatMap deviceNames
  nodup : (devices.flatMap deviceNames).Nodup
  ports : ∀ com, com ∈ s.ports ↔ com ∈ devices.map (·.config.com)
  parameters : ∀ d ∈ devices, ∀ port, s.ports.lookup d.config.com = some port →
    port.1 = d.config.baudRate ∧ port.2.1 = d.config.isSpecial

theorem Collected.same {devices : List DeviceConfig} {s : Tables} (h : Collected devices s) :
    SameParameters devices := by
  intro d hd d' hd' hcom
  obtain ⟨port, hport⟩ := Map.mem_iff.mp ((h.ports _).mpr (List.mem_map_of_mem hd))
  obtain ⟨hbaud, hspecial⟩ := h.parameters d hd port hport
  obtain ⟨hbaud', hspecial'⟩ := h.parameters d' hd' port (hcom ▸ hport)
  exact ⟨hbaud.symm.trans hbaud', hspecial.symm.trans hspecial'⟩

theorem collected_nil : Collected [] .empty where
  points := fun k => by simp [Tables.empty]
  nodup := List.nodup_nil
  ports := fun com => by simp [Tables.empty]
  parameters := fun d hd => by simp at hd

/-- What has been reported stays reported. -/
theorem quiet_addTable {csv : CsvReader} {s : Tables × List Report} {file : String × String}
    (h : Quiet (addTable csv s file).2) : Quiet s.2 := by
  simp only [addTable] at h
  split at h
  · exact (quiet_append.mp (quiet_append.mp h).1).1
  · simp only [quiet_append] at h
    exact h.1.1.1.1.1

theorem quiet_addTables {csv : CsvReader} {csvFiles : List (String × String)}
    {s : Tables × List Report} (h : Quiet (csvFiles.foldl (addTable csv) s).2) : Quiet s.2 := by
  induction csvFiles generalizing s with
  | nil => exact h
  | cons file csvFiles ih => exact quiet_addTable (ih h)

/-- A table read without an error: its points are new, and its port is new or has the same
parameters. -/
theorem Collected.addTable {csv : CsvReader} {devices : List DeviceConfig}
    {s : Tables × List Report} (h : Collected devices s.1) {file : String × String}
    (hquiet : Quiet (addTable csv s file).2) :
    ∃ d, Checked csv file d ∧
      Collected (devices ++ [d]) (Files.addTable csv s file).1 := by
  simp only [Files.addTable] at hquiet ⊢
  cases hparsed : (validateCsvContentWithPointWarnings csv file.2).2 with
  | error e =>
    simp only [hparsed, quiet_append, quiet_error] at hquiet
    exact absurd hquiet.2 id
  | ok parsed =>
    obtain ⟨config, records⟩ := parsed
    simp only [hparsed, quiet_append] at hquiet ⊢
    obtain ⟨⟨⟨⟨-, hconflict⟩, -⟩, -⟩, hrepeated⟩ := hquiet
    have hpass := (registers_points file.1).foldl
    have hnew := (hpass.quiet_iff (s.1.pointOwners, []) records).mp hrepeated
    have hnames : (records.flatMap fun record => [record.kks]) = deviceNames ⟨config, records⟩ :=
      List.map_eq_flatMap.symm
    rw [hnames] at hnew
    refine ⟨⟨config, records⟩, hparsed, ?_, ?_, ?_, ?_⟩
    · intro k
      refine (hpass.mem (s.1.pointOwners, []) records k).trans ?_
      rw [hnames, h.points, List.flatMap_append, List.flatMap_singleton, List.mem_append, or_comm]
    · rw [List.flatMap_append, List.flatMap_singleton]
      refine h.nodup.append hnew.2.2.1 fun k hk hk' => ?_
      exact hnew.2.2.2 k hk' ((h.points k).mpr hk)
    · intro com
      rw [List.map_append, List.mem_append, ← h.ports com]
      split_ifs with hknown
      · have hmem : config.com ∈ s.1.ports := AList.lookup_isSome.mp hknown
        constructor
        · exact .inl
        · rintro (hcom | hcom)
          · exact hcom
          · rwa [List.mem_singleton.mp hcom]
      · rw [AList.mem_insert, or_comm]
        simp
    · intro d hd port hport
      have hcase : d ∈ devices ∨ d.config = config := by
        rcases List.mem_append.mp hd with hd | hd
        · exact .inl hd
        · exact .inr (congrArg (·.config) (List.mem_singleton.mp hd))
      split_ifs at hport with hknown
      · rcases hcase with hd | hd
        · exact h.parameters d hd port hport
        · rw [hd] at hport ⊢
          simpa [portConflict, hport] using hconflict
      · rw [Map.lookup_insert_eq] at hport
        split_ifs at hport with hcom
        · obtain rfl := Option.some.inj hport
          rcases hcase with hd | hd
          · have hmem : config.com ∈ s.1.ports :=
              (h.ports _).mpr (List.mem_map.mpr ⟨d, hd, hcom⟩)
            exact absurd (AList.lookup_isSome.mpr hmem) hknown
          · rw [hd]
            exact ⟨rfl, rfl⟩
        · rcases hcase with hd | hd
          · exact h.parameters d hd port hport
          · exact absurd (congrArg (·.com) hd) hcom

/-- All tables read without an error. -/
theorem Collected.addTables {csv : CsvReader} {csvFiles : List (String × String)}
    {devices : List DeviceConfig} {s : Tables × List Report} (h : Collected devices s.1)
    (hquiet : Quiet (csvFiles.foldl (Files.addTable csv) s).2) :
    ∃ rest, List.Forall₂ (Checked csv) csvFiles rest ∧
      Collected (devices ++ rest) (csvFiles.foldl (Files.addTable csv) s).1 := by
  induction csvFiles generalizing devices s with
  | nil => exact ⟨[], .nil, by simpa using h⟩
  | cons file csvFiles ih =>
    have hstep : Quiet (Files.addTable csv s file).2 := quiet_addTables hquiet
    obtain ⟨d, hchecked, hnext⟩ := h.addTable hstep
    obtain ⟨rest, hrest, hlast⟩ := ih hnext hquiet
    refine ⟨d :: rest, .cons hchecked hrest, ?_⟩
    rw [List.foldl_cons]
    simpa using hlast

end Tables

/-! ## Node names -/

section Nodes

def nodeNames (port : String) : List String := nodeSuffixes.map (portStem port ++ ·)

def reservedNames (coms : List String) : List String :=
  ["Devices", "Methods"] ++ coms.flatMap nodeNames

theorem registers_node (port : String) :
    Registers (fun (s : Map String String × List Report) k => k ∈ s.1) (fun s => Quiet s.2)
      (addNode port) (fun _ => True) (fun suffix => [portStem port ++ suffix]) where
  mem := by
    intro s suffix k
    rw [List.mem_singleton]
    exact AList.mem_insert s.1
  quiet_iff := by
    intro s suffix
    simp only [addNode, quiet_append, quiet_repeated, AList.lookup_eq_none, true_and,
      List.nodup_singleton, List.mem_singleton, forall_eq]

theorem registers_port (debug : String → String) :
    Registers (fun (s : Map String String × List Report) k => k ∈ s.1) (fun s => Quiet s.2)
      (addPortNodes debug) (fun port => (trim (portStem port)).isEmpty = false) nodeNames where
  mem := by
    intro s port k
    refine ((registers_node port).foldl.mem _ nodeSuffixes k).trans ?_
    rw [nodeNames, List.map_eq_flatMap]
  quiet_iff := by
    intro s port
    refine ((registers_node port).foldl.quiet_iff _ nodeSuffixes).trans ?_
    simp only [quiet_append, quiet_errorIf, nodeNames, List.map_eq_flatMap, implies_true, true_and,
      and_assoc]

/-- The reserved names, when none of them was reserved twice. -/
theorem reserveNodes_quiet {debug : String → String}
    {ports : Map String (UInt32 × Bool × String)} (h : Quiet (reserveNodes debug ports).2) :
    (reservedNames (sortTexts ports.keys)).Nodup ∧
      ∀ k, k ∈ (reserveNodes debug ports).1 ↔ k ∈ reservedNames (sortTexts ports.keys) := by
  have hpass := (registers_port debug).foldl
  have hsystem : ∀ k, k ∈ systemNodes ↔ k ∈ ["Devices", "Methods"] := by
    intro k
    simp only [systemNodes, AList.mem_insert, List.mem_cons, List.not_mem_nil, or_false]
    have hempty : k ∉ (∅ : Map String String) := AList.notMem_empty k
    tauto
  constructor
  · obtain ⟨-, -, hnodup, hnew⟩ := (hpass.quiet_iff (systemNodes, []) (sortTexts ports.keys)).mp h
    refine List.Nodup.append (by decide) hnodup fun k hk hk' => ?_
    exact hnew k hk' ((hsystem k).mpr hk)
  · intro k
    refine (hpass.mem (systemNodes, []) (sortTexts ports.keys) k).trans ?_
    rw [hsystem, reservedNames, List.mem_append, or_comm]

/-- The server's names for its ports are the reserved ones. -/
theorem serverNames_perm {serialPorts : List SerialPortConfig} {coms : List String}
    (h : (serialPorts.map (·.portNumber)).Perm coms) :
    (sendNames serialPorts ++ infrastructureNames serialPorts).Perm (reservedNames coms) := by
  have hports : (serialPorts.map (·.portNumber)).flatMap nodeNames = serialPorts.flatMap fun port =>
      [Server.opcSendNodeName port.portNumber] ++
        (let methodName := Server.opcSendMethodName port.portNumber
        [methodName, methodName ++ "_Input", methodName ++ "_Output"]) := by
    rw [List.flatMap_map]
    refine List.flatMap_congr fun port _ => ?_
    simp only [Server.opcSendMethodName, String.append_assoc]
    rfl
  have hcoms := h.flatMap_right nodeNames
  rw [hports] at hcoms
  have hsplit := (List.flatMap_append_perm serialPorts
    (fun port => [Server.opcSendNodeName port.portNumber]) _).trans hcoms
  rw [← List.map_eq_flatMap] at hsplit
  rw [Server.infrastructureNames_eq, reservedNames]
  exact (List.perm_append_comm_assoc _ ["Devices", "Methods"] _).trans (hsplit.append_left _)

end Nodes

/-! ## Rules -/

section Rules

variable [FloatOps F64 F32]

omit [FloatOps F64 F32] in
theorem outputReports_quiet {pointOwners reserved : Map String String} {seen : List String}
    {rules : List (CalcRule F64 × Nat)}
    (h : Quiet (outputReports pointOwners reserved seen rules)) :
    (rules.map (·.1.kksCalc)).Nodup ∧ ∀ name ∈ rules.map (·.1.kksCalc),
      name ∉ seen ∧ name ∉ pointOwners ∧ name ∉ reserved := by
  induction rules generalizing seen with
  | nil => exact ⟨List.nodup_nil, fun name hname => by simp at hname⟩
  | cons rule rules ih =>
    obtain ⟨rule, index⟩ := rule
    simp only [outputReports, quiet_append, quiet_errorIf, Bool.or_eq_false_iff,
      List.contains_eq_mem, decide_eq_false_iff_not] at h
    obtain ⟨⟨⟨-, hseen⟩, hpoint, hreserved⟩, hrest⟩ := h
    obtain ⟨hnodup, hfree⟩ := ih hrest
    rw [List.map_cons]
    refine ⟨List.nodup_cons.mpr ⟨fun hin => (hfree _ hin).1 List.mem_cons_self, hnodup⟩, ?_⟩
    refine List.forall_mem_cons.mpr ⟨⟨hseen, ?_, ?_⟩, fun name hname => ?_⟩
    · exact fun hin => by simp [AList.lookup_isSome.mpr hin] at hpoint
    · exact fun hin => by simp [AList.lookup_isSome.mpr hin] at hreserved
    · obtain ⟨hnew, hfree⟩ := hfree name hname
      exact ⟨fun hin => hnew (List.mem_cons_of_mem _ hin), hfree⟩

/-- A rule without an error: it compiles unless it reads its own output, and it reads only points
and outputs. -/
structure RuleOk (p : Parsers F64) (pointOwners : Map String String) (outputs : String → Option Nat)
    (rule : CalcRule F64) (cr : CompiledRule F64) : Prop where
  name : cr.kksCalc = rule.kksCalc
  compiled : rule.kksCalc ∉ cr.vars → compileRule rule = .ok cr
  dependencies : (checkRule p pointOwners outputs rule).1 = cr.vars.filterMap outputs
  vars_nodup : cr.vars.Nodup
  known : ∀ dependency ∈ cr.vars, (outputs dependency).isSome ∨ dependency ∈ pointOwners

theorem checkRule_quiet {p : Parsers F64} {pointOwners : Map String String}
    {outputs : String → Option Nat} {rule : CalcRule F64}
    (h : Quiet (checkRule p pointOwners outputs rule).2) :
    ∃ cr, RuleOk p pointOwners outputs rule cr := by
  simp only [checkRule] at h
  split_ifs at h with hsize
  · simp at h
  cases htokens : (tokenize rule.expression : Calc.Parse F64 (List (Calc.Token F64))) with
  | error e => simp [htokens] at h
  | ok tokens =>
    simp only [htokens] at h
    split_ifs at h with hcount
    · simp at h
    cases hast : parse tokens with
    | error e => simp [hast] at h
    | ok ast =>
      simp only [hast, quiet_append, quiet_errorIf, quiet_flatMap, Bool.or_eq_false_iff,
        Bool.not_eq_false'] at h
      obtain ⟨⟨htype, ⟨⟨hmin, hmax⟩, hdefault⟩, hle⟩, hknown⟩ := h
      obtain ⟨dataType, hdata⟩ := Option.isSome_iff_exists.mp (Option.isNone_eq_false_iff.mp htype)
      refine ⟨⟨rule.kksCalc, dataType, rule.expression, ast, extractVariables ast, rule.maxLimit,
        rule.minLimit, rule.defaultValue⟩, rfl, fun hself => ?_, ?_, ?_, ?_⟩
      · have hlimits : (!FloatOps.isFinite rule.maxLimit || !FloatOps.isFinite rule.minLimit ||
            !FloatOps.isFinite rule.defaultValue) = false := by simp [hmin, hmax, hdefault]
        simp only [compileRule, hdata, hlimits, hle, htokens, hast, Bool.false_eq_true, if_false]
        exact if_neg hself
      · simp only [checkRule, if_neg hsize, htokens, if_neg hcount, hast]
      · exact Calc.Rust.nodup_extractVariables ast
      · intro dependency hdependency
        have hone := hknown dependency hdependency
        rw [← AList.lookup_isSome]
        cases hout : outputs dependency with
        | some index => exact .inl rfl
        | none => exact .inr (by simpa [hout, Option.isSome_iff_ne_none] using hone)

/-! ## The order of the rules -/

section Order

variable {p : Parsers F64} {pointOwners : Map String String} {rules : List (CalcRule F64)}
  {compiled : List (CompiledRule F64)}

omit [FloatOps F64 F32] in
theorem outputIndices_some (hnodup : (rules.map (·.kksCalc)).Nodup) {name : String} {i : Nat} :
    outputIndices rules name = some i ↔ ∃ rule, rules[i]? = some rule ∧ rule.kksCalc = name :=
  Calc.Rust.indexTable_some hnodup

/-- What a position waits for. -/
theorem ruleDependencies_eq
    (hrules : List.Forall₂ (RuleOk p pointOwners (outputIndices rules)) rules compiled) (i : Nat) :
    ruleDependencies p pointOwners rules i =
      compiled[i]?.elim [] fun cr => cr.vars.filterMap (outputIndices rules) := by
  unfold ruleDependencies
  by_cases hi : i < rules.length
  · have hi' : i < compiled.length := hrules.length_eq ▸ hi
    rw [List.getElem?_eq_getElem hi, List.getElem?_eq_getElem hi']
    exact (hrules.get hi hi').dependencies
  · have hi' : ¬ i < compiled.length := hrules.length_eq ▸ hi
    rw [List.getElem?_eq_none (Nat.not_lt.mp hi), List.getElem?_eq_none (Nat.not_lt.mp hi')]
    rfl

theorem ruleDependencies_wellFormed (hnodup : (rules.map (·.kksCalc)).Nodup)
    (hrules : List.Forall₂ (RuleOk p pointOwners (outputIndices rules)) rules compiled) :
    Kahn.WellFormed rules.length (ruleDependencies p pointOwners rules) where
  nodup := by
    intro i
    rw [ruleDependencies_eq hrules]
    cases hcr : compiled[i]? with
    | none => exact List.nodup_nil
    | some cr =>
      obtain ⟨hi, rfl⟩ := List.getElem?_eq_some_iff.mp hcr
      have hok := hrules.get (hrules.length_eq ▸ hi) hi
      apply hok.vars_nodup.filterMap
      intro name name' k hname hname'
      obtain ⟨rule, hrule, rfl⟩ := (outputIndices_some hnodup).mp hname
      obtain ⟨rule', hrule', rfl⟩ := (outputIndices_some hnodup).mp hname'
      rw [Option.some.inj (hrule.symm.trans hrule')]
  bound := by
    intro i d hd
    rw [ruleDependencies_eq hrules] at hd
    cases hcr : compiled[i]? with
    | none =>
      rw [hcr] at hd
      cases hd
    | some cr =>
      rw [hcr] at hd
      obtain ⟨name, -, hname⟩ := List.mem_filterMap.mp hd
      obtain ⟨rule, hrule, -⟩ := (outputIndices_some hnodup).mp hname
      exact (List.getElem?_eq_some_iff.mp hrule).1

/-- Without a report about a cycle every position is placed. -/
theorem mem_order_of_quiet (hnodup : (rules.map (·.kksCalc)).Nodup)
    (hrules : List.Forall₂ (RuleOk p pointOwners (outputIndices rules)) rules compiled)
    (hcycles : Quiet (cycleReports p pointOwners rules)) {i : Nat} (hi : i < rules.length) :
    i ∈ (Kahn.sort rules.length (ruleDependencies p pointOwners rules)).order := by
  have hwf := ruleDependencies_wellFormed hnodup hrules
  have hdegree : (Kahn.sort rules.length (ruleDependencies p pointOwners rules)).inDegree i = 0 := by
    have hmem : (rules[i], i) ∈ rules.zipIdx := List.mem_zipIdx_iff_getElem?.mpr
      (List.getElem?_eq_getElem hi)
    simpa [cycleReports] using quiet_flatMap.mp hcycles _ hmem
  have hplaced := ((Kahn.inv_sort hwf).ready i hi).mp hdegree
  rwa [Kahn.queue_sort hwf, List.append_nil] at hplaced

/-- No rule reads its own output, so all of them compile. -/
theorem compiles_of_quiet (hnodup : (rules.map (·.kksCalc)).Nodup)
    (hrules : List.Forall₂ (RuleOk p pointOwners (outputIndices rules)) rules compiled)
    (hcycles : Quiet (cycleReports p pointOwners rules)) :
    List.Forall₂ (fun rule cr => compileRule rule = .ok cr) rules compiled := by
  have hwf := ruleDependencies_wellFormed hnodup hrules
  have hinv := Kahn.inv_sort hwf
  refine List.forall₂_iff_get.mpr ⟨hrules.length_eq, fun i hi hi' => ?_⟩
  have hok := hrules.get hi hi'
  refine hok.compiled fun hself => ?_
  have hplaced := mem_order_of_quiet hnodup hrules hcycles hi
  refine (hinv.sorted.pairwise (List.nodup_append.mp hinv.nodup).1).2 i hplaced ?_
  rw [ruleDependencies_eq hrules, List.getElem?_eq_getElem hi']
  refine List.mem_filterMap.mpr ⟨rules[i].kksCalc, hself, (outputIndices_some hnodup).mpr ?_⟩
  exact ⟨rules[i], List.getElem?_eq_getElem hi, rfl⟩

theorem compileNext_ok {done : List (CompiledRule F64)} {rule : CalcRule F64}
    {cr : CompiledRule F64} (hcr : compileRule rule = .ok cr)
    (hnew : cr.kksCalc ∉ done.map (·.kksCalc)) :
    Calc.Rust.compileNext done rule = done ++ [cr] := by
  have hnone : (done.any fun existing => existing.kksCalc == cr.kksCalc) = false := by
    simpa [List.any_eq_false] using hnew
  simp only [Calc.Rust.compileNext, hcr, hnone, Bool.false_eq_true, if_false]

/-- Rules that compile to different outputs are all kept, in their order. -/
theorem compileRules_eq (hcompiled : List.Forall₂ (fun rule cr => compileRule rule = .ok cr) rules compiled)
    (hnodup : (compiled.map (·.kksCalc)).Nodup) : compileRules rules = compiled := by
  have hfold : ∀ done : List (CompiledRule F64), ((done ++ compiled).map (·.kksCalc)).Nodup →
      rules.foldl Calc.Rust.compileNext done = done ++ compiled := by
    clear hnodup
    induction hcompiled with
    | nil => intro done _; simp
    | @cons rule cr rules compiled hcr _ ih =>
      intro done hnodup
      have hsplit : done ++ cr :: compiled = (done ++ [cr]) ++ compiled := by simp
      have hnew : cr.kksCalc ∉ done.map (·.kksCalc) := by
        rw [List.map_append, List.map_cons, List.nodup_append'] at hnodup
        exact fun hin => hnodup.2.2 hin List.mem_cons_self
      rw [List.foldl_cons, compileNext_ok hcr hnew, hsplit]
      exact ih (done ++ [cr]) (hsplit ▸ hnodup)
  exact hfold [] hnodup

theorem names_eq
    (hrules : List.Forall₂ (RuleOk p pointOwners (outputIndices rules)) rules compiled) :
    compiled.map (·.kksCalc) = rules.map (·.kksCalc) := by
  have hnames : List.Forall₂ (fun (rule : CalcRule F64) (cr : CompiledRule F64) =>
      cr.kksCalc = rule.kksCalc) rules compiled := hrules.imp fun _ _ hok => hok.name
  refine List.forall₂_eq_eq_eq ▸ ?_
  rw [List.forall₂_map_left_iff, List.forall₂_map_right_iff]
  exact hnames.flip

/-- The engine waits for the same positions. -/
theorem dependencies_eq (hnodup : (rules.map (·.kksCalc)).Nodup)
    (hrules : List.Forall₂ (RuleOk p pointOwners (outputIndices rules)) rules compiled) :
    Calc.Rust.dependencies compiled = ruleDependencies p pointOwners rules := by
  have hindex : Calc.Rust.nameToIdx compiled = outputIndices rules := by
    funext name
    have hcompiled : (compiled.map (·.kksCalc)).Nodup := names_eq hrules ▸ hnodup
    rw [Calc.Rust.nameToIdx_eq hcompiled, names_eq hrules]
    exact (Calc.Rust.indexTable_eq hnodup name).symm
  funext i
  rw [ruleDependencies_eq hrules, Calc.Rust.dependencies, hindex]
  cases compiled[i]? <;> rfl

theorem engine_perm (hnodup : (rules.map (·.kksCalc)).Nodup)
    (hrules : List.Forall₂ (RuleOk p pointOwners (outputIndices rules)) rules compiled)
    (hcycles : Quiet (cycleReports p pointOwners rules)) :
    (CalcEngine.new rules).rules.Perm compiled := by
  have hcompiled : (compiled.map (·.kksCalc)).Nodup := names_eq hrules ▸ hnodup
  have heq : compileRules rules = compiled :=
    compileRules_eq (compiles_of_quiet hnodup hrules hcycles) hcompiled
  refine (List.perm_ext_iff_of_nodup (Calc.Rust.nodup_outputs rules).of_map hcompiled.of_map).mpr ?_
  intro cr
  have hmem : cr ∈ (CalcEngine.new rules).rules ↔
      ∃ i ∈ (Kahn.sort rules.length (ruleDependencies p pointOwners rules)).order,
        compiled[i]? = some cr := by
    rw [CalcEngine.new, Calc.Rust.topologicalSort, heq, dependencies_eq hnodup hrules,
      ← hrules.length_eq]
    exact List.mem_filterMap
  rw [hmem]
  constructor
  · rintro ⟨i, -, hcr⟩
    exact List.mem_of_getElem? hcr
  · intro hcr
    obtain ⟨i, hi⟩ := List.mem_iff_getElem?.mp hcr
    have hlt : i < rules.length := hrules.length_eq ▸ (List.getElem?_eq_some_iff.mp hi).1
    exact ⟨i, mem_order_of_quiet hnodup hrules hcycles hlt, hi⟩

/-- Every rule compiles, and the engine has all of them. -/
def KeepsAll (rules : List (CalcRule F64)) : Prop :=
  ∃ compiled, List.Forall₂ (fun rule cr => compileRule rule = .ok cr) rules compiled ∧
    (CalcEngine.new rules).rules.Perm compiled

omit [FloatOps F64 F32] in
theorem exists_forall₂ {α β : Type} {R : α → β → Prop} {l : List α} (h : ∀ a ∈ l, ∃ b, R a b) :
    ∃ bs, List.Forall₂ R l bs := by
  induction l with
  | nil => exact ⟨[], .nil⟩
  | cons a l ih =>
    obtain ⟨b, hb⟩ := h a List.mem_cons_self
    obtain ⟨bs, hbs⟩ := ih fun a' ha' => h a' (List.mem_cons_of_mem a ha')
    exact ⟨b :: bs, .cons hb hbs⟩

/-- Rules without an error: all are kept, under new names, and what they read besides each other
are points. -/
theorem validateRules_quiet {reserved : Map String String}
    (h : Quiet (validateRules p pointOwners reserved rules)) :
    KeepsAll rules ∧
      (∀ name ∈ (CalcEngine.new rules).outputNames, name ∉ pointOwners ∧ name ∉ reserved) ∧
      ∀ name ∈ (CalcEngine.new rules).requiredBaseVariables, name ∈ pointOwners := by
  simp only [validateRules, quiet_append, quiet_flatMap] at h
  obtain ⟨⟨houtputs, hchecks⟩, hcycles⟩ := h
  obtain ⟨hnodup, hfree⟩ := outputReports_quiet houtputs
  have hzip : rules.zipIdx.map (·.1.kksCalc) = rules.map (·.kksCalc) := by
    have hfst := congrArg (List.map (·.kksCalc)) (List.zipIdx_map_fst 0 rules)
    rwa [List.map_map] at hfst
  rw [hzip] at hnodup hfree
  obtain ⟨compiled, hrules⟩ := exists_forall₂ fun rule hrule => checkRule_quiet (hchecks rule hrule)
  have hperm := engine_perm hnodup hrules hcycles
  have hnames : (CalcEngine.new rules).outputNames.Perm (rules.map (·.kksCalc)) :=
    names_eq hrules ▸ hperm.map _
  refine ⟨⟨compiled, compiles_of_quiet hnodup hrules hcycles, hperm⟩, ?_, ?_⟩
  · intro name hname
    exact (hfree name (hnames.subset hname)).2
  · intro name hname
    obtain ⟨⟨cr, hcr, hmentions⟩, hnone⟩ := Calc.Rust.mem_requiredBaseVariables.mp hname
    have hcompiled := Calc.Rust.mem_compileRules.mpr (Calc.Rust.mem_rules_iff.mp hcr).1
    have hvar := (Calc.Rust.mem_vars hcompiled name).mpr hmentions
    obtain ⟨i, hi, rfl⟩ := List.mem_iff_getElem.mp (hperm.subset hcr)
    rcases (hrules.get (hrules.length_eq ▸ hi) hi).known name hvar with hout | hpoint
    · obtain ⟨index, hindex⟩ := Option.isSome_iff_exists.mp hout
      obtain ⟨rule, hrule, hrname⟩ := (outputIndices_some hnodup).mp hindex
      have hin : name ∈ (CalcEngine.new rules).outputNames :=
        hnames.symm.subset (List.mem_map.mpr ⟨rule, List.mem_of_getElem? hrule, hrname⟩)
      obtain ⟨other, hother, honame⟩ := List.mem_map.mp hin
      exact absurd honame (hnone other hother)
    · exact hpoint

end Order

end Rules

/-! ## The files of a set at startup -/

/-- The point tables, in the order of their names. -/
def csvTexts (files : ConfigSet) : List (String × String) :=
  (sortedFiles files).filterMap fun file =>
    if isCsv file.1 then (String.fromUTF8? file.2).map fun content => (file.1, content) else none

section Texts

variable {files : ConfigSet}

theorem mem_sortedFiles {name : String} {bytes : ByteArray} :
    (name, bytes) ∈ sortedFiles files ↔ files.lookup name = some bytes := by
  simp only [sortedFiles, List.mem_filterMap, mem_sortTexts, Option.map_eq_some_iff, Prod.mk.injEq]
  constructor
  · rintro ⟨_, -, _, hlookup, rfl, rfl⟩
    exact hlookup
  · intro hlookup
    have hmem : name ∈ files := Map.mem_iff.mpr ⟨bytes, hlookup⟩
    exact ⟨name, AList.mem_keys.mp hmem, bytes, hlookup, rfl, rfl⟩

theorem readTexts_local (l : List (String × ByteArray)) :
    (readTexts false l).1 =
        (l.filterMap fun file => (String.fromUTF8? file.2).map fun content => (file.1, content)) ∧
      (Quiet (readTexts false l).2 ↔ ∀ file ∈ l, (String.fromUTF8? file.2).isSome) := by
  induction l with
  | nil => simp [readTexts]
  | cons file l ih =>
    obtain ⟨name, bytes⟩ := file
    obtain ⟨htexts, hquiet⟩ := ih
    rw [List.filterMap_cons, List.forall_mem_cons, ← hquiet, ← htexts]
    cases hbytes : String.fromUTF8? bytes with
    | none => simp [readTexts, hbytes]
    | some content => simp [readTexts, hbytes]

theorem csvFiles_local :
    csvFiles (readTexts false (sortedFiles files)).1 = csvTexts files := by
  rw [(readTexts_local _).1, csvFiles, csvTexts, List.filter_filterMap]
  refine List.filterMap_congr fun file _ => ?_
  cases String.fromUTF8? file.2 with
  | none => simp
  | some content => by_cases hcsv : isCsv file.1 = true <;> simp [hcsv]

end Texts

section Calc

variable [FloatOps F64 F32]

/-- `load_calc_config` on the files of the set. -/
def loadCalcConfig (p : Parsers F64) (files : ConfigSet) : Except String (List (CalcRule F64)) :=
  match files.lookup "calc.toml" with
  | none => .ok []
  | some bytes =>
    match String.fromUTF8? bytes with
    | none => .error "读取计算规则文件失败: stream did not contain valid UTF-8"
    | some content =>
      match p.rules content with
      | .error e => .error ("解析计算规则 TOML 失败: " ++ e)
      | .ok rules => .ok (rules.map CalcRule.ofRaw)

/-- All rules are kept under names that are not taken, and read points. -/
structure RulesFit (points reserved : List String) (rules : List (CalcRule F64)) : Prop where
  kept : KeepsAll rules
  points_free : ∀ name ∈ (CalcEngine.new rules).outputNames, name ∉ points
  reserved_free : ∀ name ∈ (CalcEngine.new rules).outputNames, name ∉ reserved
  base : ∀ name ∈ (CalcEngine.new rules).requiredBaseVariables, name ∈ points

theorem rulesFit_nil (points reserved : List String) :
    RulesFit points reserved ([] : List (CalcRule F64)) where
  kept := ⟨[], .nil, .nil⟩
  points_free := fun name hname => by cases hname
  reserved_free := fun name hname => by cases hname
  base := fun name hname => by cases hname

theorem validateCalc_quiet {p : Parsers F64} {pointOwners reserved : Map String String}
    {content : String} (h : Quiet (validateCalc p pointOwners reserved content)) :
    ∃ rules, p.rules content = .ok rules ∧
      Quiet (validateRules p pointOwners reserved (rules.map CalcRule.ofRaw)) := by
  simp only [validateCalc] at h
  split at h
  · exact absurd h quiet_error
  · split at h
    · exact absurd (quiet_append.mp h).2 quiet_error
    · rename_i rules hrules
      exact ⟨rules, hrules, (quiet_append.mp h).2⟩

/-- What a set without an error gives. -/
structure SetOk (p : Parsers F64) (files : ConfigSet) (devices : List DeviceConfig)
    (coms : List String) (rules : List (CalcRule F64)) : Prop where
  texts : ∀ name bytes, files.lookup name = some bytes → (String.fromUTF8? bytes).isSome
  checked : List.Forall₂ (Checked p.csv) (csvTexts files) devices
  same : SameParameters devices
  points_nodup : (devices.flatMap deviceNames).Nodup
  coms_nodup : coms.Nodup
  named : ∀ com, com ∈ coms ↔ com ∈ devices.map (·.config.com)
  reserved_nodup : (reservedNames coms).Nodup
  points_free : ∀ k ∈ devices.flatMap deviceNames, k ∉ reservedNames coms
  loaded : loadCalcConfig p files = .ok rules
  fit : RulesFit (devices.flatMap deviceNames) (reservedNames coms) rules

/-- The rules of a set without an error. -/
theorem loadCalcConfig_quiet {p : Parsers F64} {files : ConfigSet}
    {pointOwners reserved : Map String String} {points names : List String}
    (hpoints : ∀ k, k ∈ pointOwners ↔ k ∈ points) (hreserved : ∀ k, k ∈ reserved ↔ k ∈ names)
    (htexts : ∀ name bytes, files.lookup name = some bytes → (String.fromUTF8? bytes).isSome)
    (h : Quiet (match (readTexts false (sortedFiles files)).1.lookup "calc.toml" with
      | some content => validateCalc p pointOwners reserved content
      | none => [])) :
    ∃ rules, loadCalcConfig p files = .ok rules ∧ RulesFit points names rules := by
  have hmem : ∀ content, ("calc.toml", content) ∈ (readTexts false (sortedFiles files)).1 ↔
      ∃ bytes, files.lookup "calc.toml" = some bytes ∧ String.fromUTF8? bytes = some content := by
    intro content
    rw [(readTexts_local _).1, List.mem_filterMap]
    simp only [Option.map_eq_some_iff, Prod.mk.injEq, Prod.exists]
    constructor
    · rintro ⟨_, bytes, hfile, _, hcontent, rfl, rfl⟩
      exact ⟨bytes, mem_sortedFiles.mp hfile, hcontent⟩
    · rintro ⟨bytes, hfile, hcontent⟩
      exact ⟨_, bytes, mem_sortedFiles.mpr hfile, content, hcontent, rfl, rfl⟩
  cases hlookup : (readTexts false (sortedFiles files)).1.lookup "calc.toml" with
  | none =>
    have hnone : files.lookup "calc.toml" = none := by
      by_contra hsome
      obtain ⟨bytes, hbytes⟩ := Option.ne_none_iff_exists'.mp hsome
      obtain ⟨content, hcontent⟩ := Option.isSome_iff_exists.mp (htexts _ _ hbytes)
      have hin := (hmem content).mpr ⟨bytes, hbytes, hcontent⟩
      simpa using List.lookup_eq_none_iff.mp hlookup _ hin
    exact ⟨[], by simp [loadCalcConfig, hnone], rulesFit_nil points names⟩
  | some content =>
    obtain ⟨l, r, hsplit, -⟩ := List.lookup_eq_some_iff.mp hlookup
    obtain ⟨bytes, hbytes, hcontent⟩ := (hmem content).mp (by rw [hsplit]; simp)
    rw [hlookup] at h
    obtain ⟨rules, hrules, hquiet⟩ := validateCalc_quiet h
    obtain ⟨hkept, hfree, hbase⟩ := validateRules_quiet hquiet
    refine ⟨rules.map CalcRule.ofRaw, ?_, hkept, ?_, ?_, ?_⟩
    · simp only [loadCalcConfig, hbytes, hcontent, hrules]
    · exact fun name hname hin => (hfree name hname).1 ((hpoints name).mpr hin)
    · exact fun name hname hin => (hfree name hname).2 ((hreserved name).mpr hin)
    · exact fun name hname => (hpoints name).mp (hbase name hname)

theorem setOk_of_quiet {p : Parsers F64} {files : ConfigSet}
    (hlocal : managerCalculation p files = false) (h : Quiet (setReports p files)) :
    ∃ devices coms rules, SetOk p files devices coms rules := by
  simp only [setReports, hlocal, quiet_append, csvFiles_local] at h
  obtain ⟨⟨⟨⟨⟨hunread, -⟩, htables⟩, hnodes⟩, hconflicts⟩, hcalc⟩ := h
  obtain ⟨devices, hchecked, hcollected⟩ := collected_nil.addTables htables
  rw [List.nil_append] at hcollected
  obtain ⟨hreserved, hnames⟩ := reserveNodes_quiet hnodes
  have htexts : ∀ name bytes, files.lookup name = some bytes → (String.fromUTF8? bytes).isSome :=
    fun name bytes hfile => (readTexts_local _).2.mp hunread _ (mem_sortedFiles.mpr hfile)
  obtain ⟨rules, hloaded, hfit⟩ := loadCalcConfig_quiet hcollected.points hnames htexts hcalc
  refine ⟨devices, _, rules, htexts, hchecked, hcollected.same, hcollected.nodup,
    nodup_sortTexts (AList.keys_nodup _), ?_, hreserved, ?_, hloaded, hfit⟩
  · intro com
    rw [mem_sortTexts, ← AList.mem_keys]
    exact hcollected.ports com
  · intro k hk hin
    have howner := (hcollected.points k).mpr hk
    have hone := quiet_flatMap.mp hconflicts k (mem_sortTexts.mpr (AList.mem_keys.mp howner))
    simp [AList.lookup_isSome.mpr ((hnames k).mpr hin)] at hone

/-! ## Agreement -/

/-- The ports and the rules that startup goes on with: the name space is accepted and no rule is
dropped. -/
structure Started (order : List String → List String) (debug : String → String) (p : Parsers F64)
    (files : ConfigSet) (ports : List SerialPortConfig) (rules : List (CalcRule F64)) : Prop where
  grouped : loadAndGroupCsvConfigs debug p.csv (csvTexts files) = .ok ports
  loaded : loadCalcConfig p files = .ok rules
  accepted : validateOpcuaKksNamespace order ports (CalcEngine.new rules) = .ok ()
  kept : KeepsAll rules

/-- Every file of the set can be read at startup. -/
structure Parses (p : Parsers F64) (files : ConfigSet) : Prop where
  texts : ∀ name bytes, files.lookup name = some bytes → isCsv name → (String.fromUTF8? bytes).isSome
  tables : ∀ file ∈ csvTexts files, ∃ device, parseCsv p.csv file.2 = .ok device
  rules : ∃ rules, loadCalcConfig p files = .ok rules

/-- Startup reads the devices that the validation read, and takes the set as it is. -/
structure Agrees (order : List String → List String) (debug : String → String) (p : Parsers F64)
    (files : ConfigSet) : Prop where
  texts : ∀ name bytes, files.lookup name = some bytes → isCsv name → (String.fromUTF8? bytes).isSome
  tables : ∀ file ∈ csvTexts files, ∃ device,
    (validateCsvContentWithPointWarnings p.csv file.2).2 = .ok device ∧
      parseCsv p.csv file.2 = .ok device
  started : ∃ ports rules, Started order debug p files ports rules ∧
    ∀ name ∈ (CalcEngine.new rules).requiredBaseVariables, name ∈ pointNames ports

def Clean (p : Parsers F64) (files : ConfigSet) : Prop := (validateSet p files).errors.items = []

instance (p : Parsers F64) (files : ConfigSet) : Decidable (Clean p files) :=
  inferInstanceAs (Decidable ((validateSet p files).errors.items = []))

/-- What is promised of the validation: a set without an error starts as it was read, and a set
that startup would refuse or prune has an error. -/
structure AgreesWithStartup (order : List String → List String) (debug : String → String)
    (p : Parsers F64) (files : ConfigSet) : Prop where
  clean : Clean p files → Agrees order debug p files
  refused : Parses p files → (∀ ports rules, ¬ Started order debug p files ports rules) →
    ¬ Clean p files

theorem clean_iff {p : Parsers F64} {files : ConfigSet} :
    Clean p files ↔ Quiet (setReports p files) := by
  rw [Clean, validateSet, errors_foldl]
  exact and_iff_right rfl

variable {p : Parsers F64} {files : ConfigSet} {devices : List DeviceConfig} {coms : List String}
  {rules : List (CalcRule F64)}

/-- The name space of a set without an error has no conflict. -/
theorem SetOk.accepted (h : SetOk p files devices coms rules) (order : List String → List String)
    {ports : List SerialPortConfig} (hports : (ports.map (·.portNumber)).Perm coms)
    (hpoints : (pointNames ports).Perm (devices.flatMap deviceNames)) :
    validateOpcuaKksNamespace order ports (CalcEngine.new rules) = .ok () := by
  have hnames := serverNames_perm hports
  obtain ⟨hsends, hinfra, -⟩ := List.nodup_append'.mp (hnames.symm.nodup h.reserved_nodup)
  have hsend : ∀ k ∈ sendNames ports, k ∈ reservedNames coms :=
    fun k hk => hnames.subset (List.mem_append_left _ hk)
  have hinfraIn : ∀ k ∈ infrastructureNames ports, k ∈ reservedNames coms :=
    fun k hk => hnames.subset (List.mem_append_right _ hk)
  rw [Server.validateOpcuaKksNamespace_ok]
  refine ⟨hpoints.symm.nodup h.points_nodup, ?_, hsends, ?_, ?_, hinfra, ?_, ?_⟩
  · exact fun k hk hin => h.fit.points_free k hk (hpoints.subset hin)
  · exact fun k hk hin => h.points_free k (hpoints.subset hin) (hsend k hk)
  · exact fun k hk hin => h.fit.reserved_free k hin (hsend k hk)
  · exact fun k hk hin => h.points_free k (hpoints.subset hin) (hinfraIn k hk)
  · exact fun k hk hin => h.fit.reserved_free k hin (hinfraIn k hk)

/-- Where the marks make no difference, startup reads the devices of the validation. -/
theorem SetOk.parsed (h : SetOk p files devices coms rules)
    (halike : ∀ file ∈ csvTexts files, ReadsAlike p.csv file.2) :
    List.Forall₂ (fun file d => parseCsv p.csv file.2 = .ok (d.config, d.records))
      (csvTexts files) devices := by
  refine List.forall₂_iff_get.mpr ⟨h.checked.length_eq, fun i hi hi' => ?_⟩
  have hchecked : Checked p.csv (csvTexts files)[i] devices[i] := h.checked.get hi hi'
  exact (halike _ (List.getElem_mem hi)).trans (parseCsv_of_validated hchecked)

theorem SetOk.agrees (h : SetOk p files devices coms rules) (order : List String → List String)
    (debug : String → String) (halike : ∀ file ∈ csvTexts files, ReadsAlike p.csv file.2) :
    Agrees order debug p files := by
  obtain ⟨ports, hload, hnodup, hmem, hpoints⟩ :=
    loadAndGroupCsvConfigs_ok debug (h.parsed halike) h.same
  have hports : (ports.map (·.portNumber)).Perm coms := by
    rw [List.perm_ext_iff_of_nodup hnodup h.coms_nodup]
    exact fun com => (hmem com).trans (h.named com).symm
  refine ⟨fun name bytes hfile _ => h.texts name bytes hfile, ?_, ports, rules, ?_, ?_⟩
  · intro file hfile
    obtain ⟨i, hi, rfl⟩ := List.mem_iff_getElem.mp hfile
    have hi' : i < devices.length := h.checked.length_eq ▸ hi
    exact ⟨(devices[i].config, devices[i].records), h.checked.get hi hi',
      (h.parsed halike).get hi hi'⟩
  · exact ⟨hload, h.loaded, h.accepted order hports hpoints, h.fit.kept⟩
  · exact fun name hname => hpoints.symm.subset (h.fit.base name hname)

/-- For every set in local mode: the validation agrees with startup exactly if byte order marks at
the beginning of a table make no difference to the startup parser, which is so if no table begins
with two of them. -/
theorem validateSet_agrees (order : List String → List String) (debug : String → String)
    (p : Parsers F64) (files : ConfigSet) (hlocal : managerCalculation p files = false) :
    (AgreesWithStartup order debug p files ↔
      (Clean p files → ∀ file ∈ csvTexts files, ReadsAlike p.csv file.2)) ∧
    (p.csv.SkipsMark → (∀ file ∈ csvTexts files, AtMostOneMark file.2) →
      AgreesWithStartup order debug p files) := by
  have hagrees : (Clean p files → ∀ file ∈ csvTexts files, ReadsAlike p.csv file.2) →
      AgreesWithStartup order debug p files := by
    intro halike
    have hall : Clean p files → Agrees order debug p files := by
      intro hclean
      obtain ⟨devices, coms, rules, hok⟩ := setOk_of_quiet hlocal (clean_iff.mp hclean)
      exact hok.agrees order debug (halike hclean)
    refine ⟨hall, fun _ hrefused hclean => ?_⟩
    obtain ⟨ports, rules, hstarted, -⟩ := (hall hclean).started
    exact hrefused ports rules hstarted
  refine ⟨⟨fun h hclean file hfile => ?_, hagrees⟩, fun hskip hmarks => hagrees fun _ file hfile => ?_⟩
  · obtain ⟨device, hchecked, hparsed⟩ := (h.clean hclean).tables file hfile
    exact hparsed.trans (parseCsv_of_validated hchecked).symm
  · exact readsAlike_of_atMostOneMark hskip (hmarks file hfile)

/-! ## Two marks -/

def applicationText : String :=
  "[server]\nprimary_ip = \"127.0.0.1:11001\"\nsecondary_ip = \"127.0.0.1:11002\"\n" ++
    "run_on = \"primary\"\ncurrent_run = \"primary\"\n[serial]\nbaud_rate = 115200\n" ++
    "data_bits = \"Eight\"\nparity = \"None\"\nstop_bits = \"One\"\nflow_control = \"none\"\n" ++
    "[settings]\ntimeout = 50\npoll_interval_ms = 1\ncommand_retry_count = 3\n" ++
    "query_retry_count = 0\nparity_switch_delay_ms = 1\ntransmit_settle_guard_ms = 1\n"

def sampleApplication : Application where
  primaryIp := "127.0.0.1:11001"
  secondaryIp := "127.0.0.1:11002"
  runOn := .primary
  baudRate := 115200
  timeout := 50
  pollIntervalMs := 1
  commandRetryCount := 3
  queryRetryCount := 0
  paritySwitchDelayMs := 1
  transmitSettleGuardMs := 1
  level := "warn,rcd_server=info"
  basename := "rcd_server"
  rotateAge := "day"
  writeMode := "buffer_and_flush"
  duplicateToStderr := none
  rotateSizeBytes := none
  mode := .local_

/-- A table whose first label is quoted and goes over a line break. -/
def tableText : String :=
  "\"" ++ "\ncom\",COM1,,,,,,,\nbaud_rate,115200,,,,,,,\nis_special,false,,,,,,,\n" ++
    "com_index,1,,,,,,,\ndevice_id,1,,,,,,,\ndata_len,8,,,,,,,\nkks_prefix,K,,,,,,,\n" ++
    "kks,type_,f_type,byte_index,bit_index,def,max,min,lh\nP1,uint,status,1,0,0,255,0,0\n"

def pointFields : List String := ["P1", "uint", "status", "1", "0", "0", "255", "0", "0"]

def tableRows : List (Except String (List String)) :=
  ([("\ncom", "COM1"), ("baud_rate", "115200"), ("is_special", "false"), ("com_index", "1"),
    ("device_id", "1"), ("data_len", "8"), ("kks_prefix", "K")].map fun (label, value) =>
      .ok [label, value, "", "", "", "", "", "", ""]) ++ [.ok Protocol.csvColumns, .ok pointFields]

/-- The library on this table: behind a mark that is not skipped the quote does not open a quoted
field, so the line break ends the first row. -/
def sampleCsv : CsvReader where
  rows := fun text =>
    let body := if text.toList.head? = some '\ufeff' then String.ofList text.toList.tail else text
    if body = tableText then tableRows
    else if body = "\ufeff" ++ tableText then
      [.ok ["\ufeff\""], .error "CSV error: record 1 (line: 2, byte: 8): found record with 9 fields, but the previous record has 1 fields"]
    else []
  deserialize := fun fields =>
    if fields = pointFields then .ok ⟨"P1", "uint", "status", 1, .single 0, 0, 255, 0, 0⟩
    else .error "CSV deserialize error"

theorem sampleCsv_skipsMark : sampleCsv.SkipsMark := by
  intro text hhead
  simp [sampleCsv, hhead]

def calcText : String :=
  "[[rules]]\nkks_calc = \"TWICE\"\ndata_type = \"uint\"\nexpression = \"KP1 + KP1\"\n"

def sampleParsers : Parsers Int where
  csv := sampleCsv
  application := fun text => if text = applicationText then .ok sampleApplication else .error "TOML"
  toml := fun text =>
    if text = calcText then
      .ok (.table [("rules", .array [.table [("kks_calc", .other), ("data_type", .other),
        ("expression", .other)]])])
    else .error "TOML"
  rules := fun text =>
    if text = calcText then
      .ok [{ kksCalc := "TWICE", dataType := "uint", expression := "KP1 + KP1", maxLimit := none,
             minLimit := none, defaultValue := none }]
    else .error "TOML"
  socketHost := fun text => if text = "127.0.0.1:11001" then some "127.0.0.1" else none
  logSpecification := fun _ => .ok ()
  debug := id
  debugToken := fun _ => ""

/-- A set in local mode whose table begins with `marks`. -/
def sampleSet (marks : String) : ConfigSet :=
  (((∅ : ConfigSet).insert "config.toml" applicationText.toByteArray).insert "rcd01.csv"
    (marks ++ tableText).toByteArray).insert "calc.toml" calcText.toByteArray

theorem head_tableText : tableText.toList.head? = some '"' := by
  simp only [tableText, String.toList_append, List.head?_append]
  rfl

theorem rows_tableText : sampleCsv.rows tableText = tableRows := by
  simp [sampleCsv, head_tableText]

/-- Behind two marks the library reads on with one of them. -/
theorem rows_twoMarks : sampleCsv.rows ("\ufeff\ufeff" ++ tableText) =
    [.ok ["\ufeff\""], .error "CSV error: record 1 (line: 2, byte: 8): found record with 9 fields, but the previous record has 1 fields"] := by
  have hmarks : "\ufeff\ufeff".toList = ['\ufeff', '\ufeff'] := rfl
  have hone : String.ofList ("\ufeff\ufeff" ++ tableText).toList.tail = "\ufeff" ++ tableText := by
    apply String.toList_injective
    rw [String.toList_ofList, String.toList_append, String.toList_append, hmarks]
    rfl
  have hne : "\ufeff" ++ tableText ≠ tableText := by
    intro heq
    have hhead := congrArg (fun s => s.toList.head?) heq
    rw [head_tableText] at hhead
    simp [String.toList_append] at hhead
  have hhead : ("\ufeff\ufeff" ++ tableText).toList.head? = some '\ufeff' := by
    rw [String.toList_append, hmarks]
    rfl
  simp only [sampleCsv, hhead, hone, if_true, if_neg hne]

theorem lookup_sample (marks name : String) : (sampleSet marks).lookup name =
    if name = "calc.toml" then some calcText.toByteArray
    else if name = "rcd01.csv" then some (marks ++ tableText).toByteArray
    else if name = "config.toml" then some applicationText.toByteArray
    else none := by
  simp only [sampleSet, Map.lookup_insert_eq]
  rfl

theorem sortedFiles_sample (marks : String) : sortedFiles (sampleSet marks) =
    [("calc.toml", calcText.toByteArray), ("config.toml", applicationText.toByteArray),
      ("rcd01.csv", (marks ++ tableText).toByteArray)] := by
  have hkeys : (sampleSet marks).keys = ["calc.toml", "rcd01.csv", "config.toml"] := by
    simp [sampleSet, AList.keys_insert]
  have hsorted : sortTexts ["calc.toml", "rcd01.csv", "config.toml"] =
      ["calc.toml", "config.toml", "rcd01.csv"] := by decide +kernel
  rw [sortedFiles, hkeys, hsorted]
  simp [lookup_sample]

theorem readTexts_cons (name text : String) (rest : List (String × ByteArray)) :
    readTexts false ((name, text.toByteArray) :: rest) =
      ((name, text) :: (readTexts false rest).1, (readTexts false rest).2) := by
  simp only [readTexts, fromUTF8_text, Bool.false_and, Bool.false_eq_true, if_false]

theorem readTexts_sample (marks : String) : readTexts false (sortedFiles (sampleSet marks)) =
    ([("calc.toml", calcText), ("config.toml", applicationText), ("rcd01.csv", marks ++ tableText)],
      []) := by
  rw [sortedFiles_sample, readTexts_cons, readTexts_cons, readTexts_cons, readTexts]

theorem csvFiles_sample (marks : String) : csvFiles
    [("calc.toml", calcText), ("config.toml", applicationText), ("rcd01.csv", marks ++ tableText)] =
    [("rcd01.csv", marks ++ tableText)] := by
  have hcalc : isCsv "calc.toml" = false := by decide
  have hconfig : isCsv "config.toml" = false := by decide
  have htable : isCsv "rcd01.csv" = true := by decide
  simp only [csvFiles, List.filter_cons, hcalc, hconfig, htable, Bool.false_eq_true, if_false,
    if_true, List.filter_nil]

theorem csvTexts_sample (marks : String) :
    csvTexts (sampleSet marks) = [("rcd01.csv", marks ++ tableText)] := by
  rw [← csvFiles_local, readTexts_sample]
  exact csvFiles_sample marks

theorem application_sample : sampleParsers.application applicationText = .ok sampleApplication := by
  simp only [sampleParsers, if_true]

theorem local_sample (marks : String) :
    managerCalculation sampleParsers (sampleSet marks) = false := by
  have hlookup : (sampleSet marks).lookup "config.toml" = some applicationText.toByteArray := by
    simp [lookup_sample]
  rw [managerCalculation, hlookup, Option.bind_some, fromUTF8_text, Option.bind_some,
    application_sample]
  rfl

def sampleDevice : Config × List Record :=
  (⟨"COM1", 115200, false, 1, 1, 8, "K"⟩, [⟨"KP1", "uint", "status", 1, .single 0, 0, 255, 0, 0⟩])

theorem validate_sample {marks : String} (hmarks : ∀ c ∈ marks.toList, c = '\ufeff') :
    validateCsvContentWithPointWarnings sampleParsers.csv (marks ++ tableText) =
      ([], .ok sampleDevice) := by
  have htext : withoutMarks (marks ++ tableText) = tableText :=
    Protocol.withoutMarks_append hmarks (by rw [head_tableText]; decide)
  have htable : sampleParsers.csv.rows tableText = tableRows := rows_tableText
  have hheaders : Protocol.readHeaders 0 Protocol.headerFields tableRows =
      .ok (["COM1", "115200", "false", "1", "1", "8", "K"],
        [.ok Protocol.csvColumns, .ok pointFields]) := by
    simp [tableRows, Protocol.headerFields, Protocol.readHeaders, Protocol.csvLabelMatches, trim,
      trimChars, isWhiteSpace, Protocol.foldLabel, asciiLower]
  have hconfig : Protocol.readConfig ["COM1", "115200", "false", "1", "1", "8", "K"] =
      .ok sampleDevice.1 := by decide +kernel
  have hcolumns : Protocol.readColumns [.ok Protocol.csvColumns, .ok pointFields] =
      .ok [.ok pointFields] := by
    simp [Protocol.readColumns, Protocol.columnsMatch, Protocol.csvColumns,
      Protocol.csvLabelMatches, trim, trimChars, isWhiteSpace, Protocol.foldLabel, asciiLower]
  have hrows : Protocol.readRows sampleParsers.csv sampleDevice.1 [] 9 [.ok pointFields] =
      ([], .ok sampleDevice.2) := by decide +kernel
  simp only [validateCsvContentWithPointWarnings, htext, htable, hheaders, hconfig, hcolumns, hrows]
  rfl

def sampleTables : Tables where
  pointOwners := (∅ : Map String String).insert "KP1" "rcd01.csv"
  ports := (∅ : Map String (UInt32 × Bool × String)).insert "COM1" (115200, false, "rcd01.csv")
  devices := [("COM1", 1)]

theorem addTable_sample {marks : String} (hmarks : ∀ c ∈ marks.toList, c = '\ufeff') :
    addTable sampleParsers.csv (.empty, []) ("rcd01.csv", marks ++ tableText) =
      (sampleTables, []) := by
  simp only [addTable, validate_sample hmarks]
  rfl

theorem validateCalc_sample : validateCalc sampleParsers sampleTables.pointOwners
    (reserveNodes id sampleTables.ports).1 calcText = [] := by
  have htoml : sampleParsers.toml calcText = .ok (.table [("rules", .array [.table
      [("kks_calc", .other), ("data_type", .other), ("expression", .other)]])]) := by
    simp only [sampleParsers, if_true]
  have hrules : sampleParsers.rules calcText =
      .ok [⟨"TWICE", "uint", "KP1 + KP1", none, none, none⟩] := by
    simp only [sampleParsers, if_true]
  simp only [validateCalc, htoml, hrules]
  decide +kernel

theorem setReports_eq {p : Parsers F64} {files : ConfigSet} {texts : List (String × String)}
    {unread tableReports : List Report} {tables : Tables} {application rules : String}
    (hread : readTexts (managerCalculation p files) (sortedFiles files) = (texts, unread))
    (htables : (csvFiles texts).foldl (addTable p.csv) (.empty, []) = (tables, tableReports))
    (hconfig : texts.lookup "config.toml" = some application)
    (hcalc : texts.lookup "calc.toml" = some rules) :
    setReports p files = unread ++ validateApplication p application ++ tableReports ++
      (reserveNodes p.debug tables.ports).2 ++
      pointConflicts tables.pointOwners (reserveNodes p.debug tables.ports).1 ++
      validateCalc p tables.pointOwners (reserveNodes p.debug tables.ports).1 rules := by
  simp only [setReports, hread, htables, hconfig, hcalc]

/-- No error is reported about the set, whatever marks its table begins with. -/
theorem clean_sample {marks : String} (hmarks : ∀ c ∈ marks.toList, c = '\ufeff') :
    Clean sampleParsers (sampleSet marks) := by
  have happlication : validateApplication sampleParsers applicationText = [] := by
    rw [validateApplication, application_sample]
    decide +kernel
  have hnodes : (reserveNodes id sampleTables.ports).2 = [] := by decide +kernel
  have hconflicts : pointConflicts sampleTables.pointOwners
      (reserveNodes id sampleTables.ports).1 = [] := by decide +kernel
  have htables : (csvFiles [("calc.toml", calcText), ("config.toml", applicationText),
      ("rcd01.csv", marks ++ tableText)]).foldl (addTable sampleParsers.csv) (.empty, []) =
        (sampleTables, []) := by
    rw [csvFiles_sample, List.foldl_cons, List.foldl_nil, addTable_sample hmarks]
  have hread : readTexts (managerCalculation sampleParsers (sampleSet marks))
      (sortedFiles (sampleSet marks)) = ([("calc.toml", calcText), ("config.toml", applicationText),
        ("rcd01.csv", marks ++ tableText)], []) := by
    rw [local_sample, readTexts_sample]
  have hconfig : List.lookup "config.toml" [("calc.toml", calcText), ("config.toml", applicationText),
      ("rcd01.csv", marks ++ tableText)] = some applicationText := by simp [List.lookup]
  have hcalc : List.lookup "calc.toml" [("calc.toml", calcText), ("config.toml", applicationText),
      ("rcd01.csv", marks ++ tableText)] = some calcText := by simp [List.lookup]
  have hreports := setReports_eq hread htables hconfig hcalc
  have hdebug : sampleParsers.debug = id := rfl
  rw [hdebug, happlication, hnodes, hconflicts, validateCalc_sample] at hreports
  rw [clean_iff, hreports]
  exact quiet_nil

/-- With one mark the set starts as it was read. -/
theorem validateSet_agrees_sample :
    Clean sampleParsers (sampleSet "\ufeff") ∧
      AgreesWithStartup id id sampleParsers (sampleSet "\ufeff") := by
  have hmark : "\ufeff".toList = ['\ufeff'] := rfl
  refine ⟨clean_sample (by simp [hmark]), ?_⟩
  refine (validateSet_agrees id id sampleParsers (sampleSet "\ufeff") (local_sample _)).2
    sampleCsv_skipsMark fun file hfile rest hrest => ?_
  rw [csvTexts_sample, List.mem_singleton] at hfile
  rw [hfile, String.toList_append, hmark, List.singleton_append] at hrest
  have hhead := head_tableText
  rw [(List.cons.inj hrest).2] at hhead
  exact absurd (Option.some.inj hhead) (by decide)

/-- With two marks the validation reports no error, and startup refuses the table. -/
theorem validateSet_twoMarks :
    managerCalculation sampleParsers (sampleSet "\ufeff\ufeff") = false ∧
      sampleParsers.csv.SkipsMark ∧ Clean sampleParsers (sampleSet "\ufeff\ufeff") ∧
      ¬ AgreesWithStartup id id sampleParsers (sampleSet "\ufeff\ufeff") := by
  have hmarks : "\ufeff\ufeff".toList = ['\ufeff', '\ufeff'] := rfl
  have hclean : Clean sampleParsers (sampleSet "\ufeff\ufeff") := clean_sample (by simp [hmarks])
  refine ⟨local_sample _, sampleCsv_skipsMark, hclean, fun h => ?_⟩
  have hfile : ("rcd01.csv", "\ufeff\ufeff" ++ tableText) ∈ csvTexts (sampleSet "\ufeff\ufeff") := by
    rw [csvTexts_sample]
    exact List.mem_singleton_self _
  obtain ⟨device, -, hparsed⟩ := (h.clean hclean).tables _ hfile
  have htable : sampleParsers.csv.rows ("\ufeff\ufeff" ++ tableText) = _ := rows_twoMarks
  simp only [parseCsv, htable] at hparsed
  cases hparsed

end Calc

end RcdServer.Operations.Files
