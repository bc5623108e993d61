import RcdServer.Calc.Rust.Ordering
import RcdServer.Lib.Maps
import RcdServer.Serial.Manager

/-!
# Node names of the OPC UA server

All nodes of the business namespace are found by their name alone: folders, acquisition points,
the send node and the method of every port with its two argument nodes, and calculation outputs.
`validateOpcuaKksNamespace` runs before any of them is created.
-/
namespace RcdServer.Server

open Calc.Rust (CalcEngine CalcRule)
open Lib (Map Registers)
open Lib.Text (splitAtChars)
open Protocol (DeviceConfig Record)
open Serial (SerialPortConfig)

/-! ## Names -/

/-- The last part of a serial path that is not empty. -/
def opcPortStem (portNumber : String) : String :=
  let segments := splitAtChars (fun c => c == '/' || c == '\\') portNumber.toList
  (segments.reverse.find? fun segment => !segment.isEmpty).elim portNumber String.ofList

def opcSendNodeName (portNumber : String) : String := opcPortStem portNumber ++ "_Send"

def opcSendMethodName (portNumber : String) : String := opcPortStem portNumber ++ "_SendCommand"

variable {F64 F32 : Type}

/-- The points of a port with their devices, in the order of its configuration. -/
def portPoints (port : SerialPortConfig) : List (DeviceConfig × Record) :=
  port.devices.flatMap fun dev => dev.records.map fun rec => (dev, rec)

/-- `variable_names` of `create_opcua_nodes`. -/
def variableNames (serialPorts : List SerialPortConfig) (engine : CalcEngine F64) : List String :=
  (serialPorts.flatMap fun port =>
    (portPoints port).map (·.2.kks) ++ [opcSendNodeName port.portNumber]) ++ engine.outputNames

/-- The nodes that `create_opcua_nodes` inserts, in its order. -/
def createOpcuaNodes (serialPorts : List SerialPortConfig) (engine : CalcEngine F64) :
    List String :=
  "Devices" :: variableNames serialPorts engine

/-- The nodes that `register_send_methods` inserts, in its order. -/
def registerSendMethods (serialPorts : List SerialPortConfig) : List String :=
  "Methods" :: serialPorts.flatMap fun port =>
    let methodName := opcSendMethodName port.portNumber
    [methodName ++ "_Input", methodName ++ "_Output", methodName]

/-! ## Validation -/

/-- Owners of names, with a line for each name that had an owner already. -/
structure Claims (α : Type) where
  owners : Map String α
  conflicts : List String

def Claims.empty {α : Type} : Claims α := ⟨∅, []⟩

/-- `name` gets an owner. -/
def Claims.insert {α : Type} (c : Claims α) (name : String) (owner : α) (line : α → String) :
    Claims α where
  owners := c.owners.insert name owner
  conflicts := c.conflicts ++ (c.owners.lookup name).toList.map line

/-- `name` gets an owner if it has none. -/
def Claims.insertVacant {α : Type} (c : Claims α) (name : String) (owner : α)
    (line : α → String) : Claims α where
  owners := if (c.owners.lookup name).isSome then c.owners else c.owners.insert name owner
  conflicts := c.conflicts ++ (c.owners.lookup name).toList.map line

def deviceKksOwners (serialPorts : List SerialPortConfig) : Claims (String × UInt8) :=
  (serialPorts.flatMap fun port => (portPoints port).map fun point => (port, point)).foldl
    (fun claims (port, dev, rec) =>
      claims.insertVacant rec.kks (port.portNumber, dev.config.deviceId) fun prev =>
        s!"{rec.kks}: {port.portNumber}:{dev.config.deviceId} conflicts with {prev.1}:{prev.2}")
    .empty

def sendNodeOwners (serialPorts : List SerialPortConfig) : Claims String :=
  serialPorts.foldl
    (fun claims port =>
      let sendName := opcSendNodeName port.portNumber
      claims.insert sendName port.portNumber fun previousPort =>
        s!"{sendName}: {port.portNumber} conflicts with {previousPort}")
    .empty

def sendDeviceCollisions (serialPorts : List SerialPortConfig) : List String :=
  serialPorts.filterMap fun port =>
    let sendName := opcSendNodeName port.portNumber
    ((deviceKksOwners serialPorts).owners.lookup sendName).map fun device =>
      s!"{sendName}: 写命令节点 {port.portNumber} conflicts with 设备 KKS {device.1}:{device.2}"

def plannedInfrastructureNodes (serialPorts : List SerialPortConfig) : List (String × String) :=
  [("Devices", "系统 Devices 对象"), ("Methods", "系统 Methods 对象")] ++
    serialPorts.flatMap fun port =>
      let methodName := opcSendMethodName port.portNumber
      [(methodName, s!"串口 {port.portNumber} Method"),
        (methodName ++ "_Input", s!"串口 {port.portNumber} Method 输入参数"),
        (methodName ++ "_Output", s!"串口 {port.portNumber} Method 输出参数")]

def infrastructureNodeOwners (serialPorts : List SerialPortConfig) : Claims String :=
  (plannedInfrastructureNodes serialPorts).foldl
    (fun claims (nodeName, owner) =>
      claims.insert nodeName owner fun previousOwner =>
        s!"{nodeName}: {owner} conflicts with {previousOwner}")
    .empty

def infrastructureDeviceCollisions (serialPorts : List SerialPortConfig) : List String :=
  (plannedInfrastructureNodes serialPorts).filterMap fun (nodeName, owner) =>
    ((deviceKksOwners serialPorts).owners.lookup nodeName).map fun device =>
      s!"{nodeName}: {owner} conflicts with 设备 KKS {device.1}:{device.2}"

def calcCollisions (serialPorts : List SerialPortConfig) (engine : CalcEngine F64) : List String :=
  engine.outputNames.filter fun name => ((deviceKksOwners serialPorts).owners.lookup name).isSome

def sendCalcCollisions (serialPorts : List SerialPortConfig) (engine : CalcEngine F64) :
    List String :=
  (sendNodeOwners serialPorts).owners.keys.filter fun sendName =>
    engine.outputNames.contains sendName

def infrastructureCalcCollisions (serialPorts : List SerialPortConfig) (engine : CalcEngine F64) :
    List String :=
  ((infrastructureNodeOwners serialPorts).owners.entries.filter fun entry =>
    engine.outputNames.contains entry.1).map fun entry => s!"{entry.1}: {entry.2}"

/-- A part of the message, or nothing where there is no conflict. -/
def conflictPart (label : String) (shown : Nat) (separator : String) (lines : List String) :
    List String :=
  let text := separator.intercalate (lines.take shown)
  if lines.isEmpty then [] else [s!"{label} {lines.length} 个，前 {shown} 条: [{text}]"]

/-- `order` rearranges what the source lists in the order of a hash map. -/
def validateOpcuaKksNamespace (order : List String → List String)
    (serialPorts : List SerialPortConfig) (engine : CalcEngine F64) : Except String Unit :=
  let duplicateDeviceKks := (deviceKksOwners serialPorts).conflicts
  let calcCollisions := calcCollisions serialPorts engine
  let duplicateSendNodes := (sendNodeOwners serialPorts).conflicts
  let sendDeviceCollisions := sendDeviceCollisions serialPorts
  let sendCalcCollisions := sendCalcCollisions serialPorts engine
  let duplicateInfrastructureNodes := (infrastructureNodeOwners serialPorts).conflicts
  let infrastructureDeviceCollisions := infrastructureDeviceCollisions serialPorts
  let infrastructureCalcCollisions := infrastructureCalcCollisions serialPorts engine
  if duplicateDeviceKks.isEmpty && calcCollisions.isEmpty && duplicateSendNodes.isEmpty &&
      sendDeviceCollisions.isEmpty && sendCalcCollisions.isEmpty &&
      duplicateInfrastructureNodes.isEmpty && infrastructureDeviceCollisions.isEmpty &&
      infrastructureCalcCollisions.isEmpty then
    .ok ()
  else
    let parts :=
      conflictPart "设备 KKS 重复" 5 "; " duplicateDeviceKks ++
        conflictPart "计算输出与设备 KKS 重名" 20 ", " calcCollisions ++
        conflictPart "串口路径归一化后写命令节点重名" 5 "; " duplicateSendNodes ++
        conflictPart "写命令节点与设备 KKS 重名" 5 "; " sendDeviceCollisions ++
        conflictPart "写命令节点与计算输出重名" 20 ", " (order sendCalcCollisions) ++
        conflictPart "OPC UA 系统节点重名" 5 "; " duplicateInfrastructureNodes ++
        conflictPart "OPC UA 系统节点与设备 KKS 重名" 5 "; " infrastructureDeviceCollisions ++
        conflictPart "OPC UA 系统节点与计算输出重名" 20 "; " (order infrastructureCalcCollisions)
    .error ("OPC UA 扁平化命名空间冲突，拒绝启动: " ++ "; ".intercalate parts)

/-! ## Claims -/

section Claims

variable {α γ : Type}

theorem conflicts_eq_nil {lines : List String} {owner : Option α} {line : α → String} :
    lines ++ owner.toList.map line = [] ↔ lines = [] ∧ owner = none := by
  cases owner <;> simp

/-- A step that enters the name of `x`, with a line if it has an owner. -/
def Claims.Adds (f : Claims α → γ → Claims α) (key : γ → String) : Prop :=
  Registers (fun c k => k ∈ c.owners) (fun c => c.conflicts = []) f (fun _ => True)
    fun x => [key x]

theorem Claims.adds_insert (key : γ → String) (owner : γ → α) (line : γ → α → String) :
    Adds (fun c x => c.insert (key x) (owner x) (line x)) key where
  mem := by
    intro c x k
    rw [List.mem_singleton]
    exact AList.mem_insert c.owners
  quiet_iff := by
    intro c x
    simp only [true_and, List.nodup_singleton, List.mem_singleton, forall_eq]
    rw [← AList.lookup_eq_none]
    exact conflicts_eq_nil

theorem Claims.adds_insertVacant (key : γ → String) (owner : γ → α) (line : γ → α → String) :
    Adds (fun c x => c.insertVacant (key x) (owner x) (line x)) key where
  mem := by
    intro c x k
    rw [List.mem_singleton]
    simp only [insertVacant]
    split_ifs with h
    · refine ⟨.inr, fun hk => hk.elim (fun heq => ?_) id⟩
      exact heq ▸ AList.lookup_isSome.mp h
    · exact AList.mem_insert c.owners
  quiet_iff := by
    intro c x
    simp only [true_and, List.nodup_singleton, List.mem_singleton, forall_eq]
    rw [← AList.lookup_eq_none]
    exact conflicts_eq_nil

/-- From nothing: the names are those of the list, and no line means no repetition. -/
theorem Claims.Adds.foldl_empty {f : Claims α → γ → Claims α} {key : γ → String} (h : Adds f key)
    (l : List γ) :
    (∀ k, k ∈ (l.foldl f .empty).owners ↔ k ∈ l.map key) ∧
      ((l.foldl f .empty).conflicts = [] ↔ (l.map key).Nodup) := by
  have hpass := Registers.foldl h
  have hkeys : (l.flatMap fun x => [key x]) = l.map key := List.map_eq_flatMap.symm
  have hnone : ∀ k : String, k ∉ (Claims.empty : Claims α).owners := fun _ => AList.notMem_empty _
  constructor
  · intro k
    refine (hpass.mem .empty l k).trans ?_
    rw [hkeys, or_iff_left (hnone k)]
  · refine (hpass.quiet_iff .empty l).trans ?_
    rw [hkeys]
    exact ⟨fun hq => hq.2.2.1, fun hq => ⟨rfl, fun _ _ => trivial, hq, fun k _ => hnone k⟩⟩

end Claims

/-! ## Families of names -/

def pointNames (serialPorts : List SerialPortConfig) : List String :=
  serialPorts.flatMap fun port => (portPoints port).map (·.2.kks)

def sendNames (serialPorts : List SerialPortConfig) : List String :=
  serialPorts.map fun port => opcSendNodeName port.portNumber

def infrastructureNames (serialPorts : List SerialPortConfig) : List String :=
  (plannedInfrastructureNodes serialPorts).map (·.1)

theorem infrastructureNames_eq (serialPorts : List SerialPortConfig) :
    infrastructureNames serialPorts = "Devices" :: "Methods" ::
      serialPorts.flatMap fun port =>
        let methodName := opcSendMethodName port.portNumber
        [methodName, methodName ++ "_Input", methodName ++ "_Output"] := by
  simp [infrastructureNames, plannedInfrastructureNodes, List.map_flatMap]

section Families

variable (serialPorts : List SerialPortConfig)

theorem deviceKksOwners_spec :
    (∀ k, k ∈ (deviceKksOwners serialPorts).owners ↔ k ∈ pointNames serialPorts) ∧
      ((deviceKksOwners serialPorts).conflicts = [] ↔ (pointNames serialPorts).Nodup) := by
  have h := (Claims.adds_insertVacant
    (fun point : SerialPortConfig × DeviceConfig × Record => point.2.2.kks)
    (fun point => (point.1.portNumber, point.2.1.config.deviceId))
    (fun point prev => s!"{point.2.2.kks}: {point.1.portNumber}:{point.2.1.config.deviceId} conflicts with {prev.1}:{prev.2}")).foldl_empty
      (serialPorts.flatMap fun port => (portPoints port).map fun point => (port, point))
  have hnames : (serialPorts.flatMap fun port => (portPoints port).map fun point =>
      (port, point)).map (fun point => point.2.2.kks) = pointNames serialPorts := by
    simp [pointNames, List.map_flatMap, Function.comp_def]
  rw [hnames] at h
  exact h

theorem sendNodeOwners_spec :
    (∀ k, k ∈ (sendNodeOwners serialPorts).owners ↔ k ∈ sendNames serialPorts) ∧
      ((sendNodeOwners serialPorts).conflicts = [] ↔ (sendNames serialPorts).Nodup) :=
  (Claims.adds_insert (fun port : SerialPortConfig => opcSendNodeName port.portNumber) _
    _).foldl_empty serialPorts

theorem infrastructureNodeOwners_spec :
    (∀ k, k ∈ (infrastructureNodeOwners serialPorts).owners ↔
      k ∈ infrastructureNames serialPorts) ∧
      ((infrastructureNodeOwners serialPorts).conflicts = [] ↔
        (infrastructureNames serialPorts).Nodup) :=
  (Claims.adds_insert (fun node : String × String => node.1) _ _).foldl_empty
    (plannedInfrastructureNodes serialPorts)

theorem isSome_device_owner {name : String} :
    ((deviceKksOwners serialPorts).owners.lookup name).isSome ↔ name ∈ pointNames serialPorts := by
  rw [AList.lookup_isSome]
  exact (deviceKksOwners_spec serialPorts).1 name

/-- A list of device collisions is empty if none of the names is a point. -/
theorem device_collisions_eq_nil {γ : Type} (l : List γ) (key : γ → String)
    (line : γ → String × UInt8 → String) :
    (l.filterMap fun x => ((deviceKksOwners serialPorts).owners.lookup (key x)).map (line x)) = [] ↔
      ∀ k ∈ l.map key, k ∉ pointNames serialPorts := by
  rw [List.filterMap_eq_nil_iff, List.forall_mem_map]
  refine forall₂_congr fun x _ => ?_
  rw [Option.map_eq_none_iff, ← Option.not_isSome_iff_eq_none, isSome_device_owner]

variable (engine : CalcEngine F64)

theorem calcCollisions_eq_nil : calcCollisions serialPorts engine = [] ↔
    ∀ k ∈ engine.outputNames, k ∉ pointNames serialPorts := by
  rw [calcCollisions, List.filter_eq_nil_iff]
  exact forall₂_congr fun k _ => not_congr (isSome_device_owner serialPorts)

theorem sendCalcCollisions_eq_nil : sendCalcCollisions serialPorts engine = [] ↔
    ∀ k ∈ sendNames serialPorts, k ∉ engine.outputNames := by
  rw [sendCalcCollisions, List.filter_eq_nil_iff]
  constructor
  · intro h k hk hout
    exact h k (AList.mem_keys.mp (((sendNodeOwners_spec serialPorts).1 k).mpr hk))
      (List.contains_iff_mem.mpr hout)
  · intro h k hk hout
    exact h k (((sendNodeOwners_spec serialPorts).1 k).mp (AList.mem_keys.mpr hk))
      (List.contains_iff_mem.mp hout)

theorem infrastructureCalcCollisions_eq_nil :
    infrastructureCalcCollisions serialPorts engine = [] ↔
      ∀ k ∈ infrastructureNames serialPorts, k ∉ engine.outputNames := by
  rw [infrastructureCalcCollisions, List.map_eq_nil_iff, List.filter_eq_nil_iff]
  constructor
  · intro h k hk hout
    have hmem := ((infrastructureNodeOwners_spec serialPorts).1 k).mpr hk
    obtain ⟨owner, howner⟩ := Map.mem_iff.mp hmem
    exact h ⟨k, owner⟩ (Map.mem_entries.mpr howner) (List.contains_iff_mem.mpr hout)
  · intro h entry hentry hout
    have hmem := AList.mem_keys.mpr (List.mem_map_of_mem (f := Sigma.fst) hentry)
    exact h entry.1 (((infrastructureNodeOwners_spec serialPorts).1 entry.1).mp hmem)
      (List.contains_iff_mem.mp hout)

end Families

/-! ## Suffixes -/

/-- Texts with suffixes of which neither ends in the other differ. -/
theorem append_ne_append {s t : String} (hlen : s.toList.length ≤ t.toList.length)
    (h : ¬ s.toList <:+ t.toList) (a b : String) : a ++ s ≠ b ++ t := by
  intro heq
  have hchars : a.toList ++ s.toList = b.toList ++ t.toList := by
    rw [← String.toList_append, ← String.toList_append, heq]
  have hs : s.toList <:+ b.toList ++ t.toList := hchars ▸ List.suffix_append _ _
  exact h (List.suffix_of_suffix_length_le hs (List.suffix_append _ _) hlen)

/-- No send node has the name of a folder or of a node of a method. -/
theorem sendNames_disjoint (serialPorts : List SerialPortConfig) :
    ∀ k ∈ sendNames serialPorts, k ∉ infrastructureNames serialPorts := by
  intro k hk hin
  obtain ⟨port, -, rfl⟩ := List.mem_map.mp hk
  obtain ⟨node, hnode, hname⟩ := List.mem_map.mp hin
  have hsend : ∀ (b t : String), node.1 = b ++ t → "_Send".toList.length ≤ t.toList.length →
      ¬ "_Send".toList <:+ t.toList → False := fun b t hnode hlen hsuffix =>
    append_ne_append hlen hsuffix _ b (hname.symm.trans hnode)
  rcases List.mem_append.mp hnode with hfolder | hmethod
  · rcases List.mem_pair.mp hfolder with rfl | rfl
    · exact hsend "" "Devices" rfl (by decide) (by decide)
    · exact hsend "" "Methods" rfl (by decide) (by decide)
  · obtain ⟨other, -, hother⟩ := List.mem_flatMap.mp hmethod
    have hstem : ∀ suffix : String, opcSendMethodName other.portNumber ++ suffix =
        opcPortStem other.portNumber ++ ("_SendCommand" ++ suffix) := fun suffix =>
      String.append_assoc ..
    simp only [List.mem_cons, List.not_mem_nil, or_false] at hother
    rcases hother with rfl | rfl | rfl
    · exact hsend _ "_SendCommand" rfl (by decide) (by decide)
    · exact hsend _ _ (hstem "_Input") (by decide) (by decide)
    · exact hsend _ _ (hstem "_Output") (by decide) (by decide)

/-- The eight checks as conditions on the families of names. -/
theorem validateOpcuaKksNamespace_ok {order : List String → List String}
    {serialPorts : List SerialPortConfig} {engine : CalcEngine F64} :
    validateOpcuaKksNamespace order serialPorts engine = .ok () ↔
      (pointNames serialPorts).Nodup ∧
        (∀ k ∈ engine.outputNames, k ∉ pointNames serialPorts) ∧
        (sendNames serialPorts).Nodup ∧
        (∀ k ∈ sendNames serialPorts, k ∉ pointNames serialPorts) ∧
        (∀ k ∈ sendNames serialPorts, k ∉ engine.outputNames) ∧
        (infrastructureNames serialPorts).Nodup ∧
        (∀ k ∈ infrastructureNames serialPorts, k ∉ pointNames serialPorts) ∧
        ∀ k ∈ infrastructureNames serialPorts, k ∉ engine.outputNames := by
  have hchecks : validateOpcuaKksNamespace order serialPorts engine = .ok () ↔
      (deviceKksOwners serialPorts).conflicts = [] ∧
        calcCollisions serialPorts engine = [] ∧
        (sendNodeOwners serialPorts).conflicts = [] ∧ sendDeviceCollisions serialPorts = [] ∧
        sendCalcCollisions serialPorts engine = [] ∧
        (infrastructureNodeOwners serialPorts).conflicts = [] ∧
        infrastructureDeviceCollisions serialPorts = [] ∧
        infrastructureCalcCollisions serialPorts engine = [] := by
    simp only [validateOpcuaKksNamespace]
    split_ifs with h
    · simpa [and_assoc] using h
    · simpa [and_assoc] using h
  have hsendDevice : sendDeviceCollisions serialPorts = [] ↔
      ∀ k ∈ sendNames serialPorts, k ∉ pointNames serialPorts :=
    device_collisions_eq_nil serialPorts serialPorts _ _
  have hinfraDevice : infrastructureDeviceCollisions serialPorts = [] ↔
      ∀ k ∈ infrastructureNames serialPorts, k ∉ pointNames serialPorts :=
    device_collisions_eq_nil serialPorts (plannedInfrastructureNodes serialPorts) _ _
  rw [hchecks, (deviceKksOwners_spec serialPorts).2, calcCollisions_eq_nil,
    (sendNodeOwners_spec serialPorts).2, hsendDevice, sendCalcCollisions_eq_nil,
    (infrastructureNodeOwners_spec serialPorts).2, hinfraDevice,
    infrastructureCalcCollisions_eq_nil]

/-! ## Agreement with the created nodes -/

variable [Calc.FloatOps F64 F32]

omit [Calc.FloatOps F64 F32] in
/-- The created nodes are those of the four families. -/
theorem created_perm (serialPorts : List SerialPortConfig) (engine : CalcEngine F64) :
    (createOpcuaNodes serialPorts engine ++ registerSendMethods serialPorts).Perm
      (pointNames serialPorts ++ (sendNames serialPorts ++
        (infrastructureNames serialPorts ++ engine.outputNames))) := by
  have hports : (serialPorts.flatMap fun port =>
      (portPoints port).map (·.2.kks) ++ [opcSendNodeName port.portNumber]).Perm
        (pointNames serialPorts ++ sendNames serialPorts) := by
    rw [sendNames, List.map_eq_flatMap]
    exact (List.flatMap_append_perm serialPorts _ _).symm
  have hmethods : (serialPorts.flatMap fun port =>
      let methodName := opcSendMethodName port.portNumber
      [methodName ++ "_Input", methodName ++ "_Output", methodName]).Perm
        ((serialPorts.flatMap fun port =>
          let methodName := opcSendMethodName port.portNumber
          [methodName, methodName ++ "_Input", methodName ++ "_Output"])) :=
    List.Perm.flatMap_left _ fun port _ => by
      let methodName := opcSendMethodName port.portNumber
      exact (List.perm_append_comm :
        ([methodName ++ "_Input", methodName ++ "_Output"] ++ [methodName]).Perm _)
  refine List.perm_iff_count.mpr fun name => ?_
  have hcount := hports.count_eq name
  have hcount' := hmethods.count_eq name
  rw [createOpcuaNodes, variableNames, registerSendMethods, infrastructureNames_eq]
  simp only [List.cons_append, List.count_append, List.count_cons] at hcount hcount' ⊢
  omega

/-- For every list of ports and every engine: the validation passes exactly if no two of the nodes
that the server creates have the same name. -/
theorem validateOpcuaKksNamespace_iff (order : List String → List String)
    (serialPorts : List SerialPortConfig) (rules : List (CalcRule F64)) :
    validateOpcuaKksNamespace order serialPorts (CalcEngine.new rules) = .ok () ↔
      (createOpcuaNodes serialPorts (CalcEngine.new rules) ++
        registerSendMethods serialPorts).Nodup := by
  have hout : (CalcEngine.new rules).outputNames.Nodup := Calc.Rust.nodup_outputs rules
  rw [validateOpcuaKksNamespace_ok, (created_perm serialPorts _).nodup_iff]
  simp only [List.nodup_append', List.disjoint_append_right]
  constructor
  · rintro ⟨hpoints, hcalc, hsends, hsendPoint, hsendCalc, hinfra, hinfraPoint, hinfraCalc⟩
    refine ⟨hpoints, ⟨hsends, ⟨hinfra, hout, ?_⟩, ?_, ?_⟩, ?_, ?_, ?_⟩
    · exact fun k hk hk' => hinfraCalc k hk hk'
    · exact fun k hk hk' => sendNames_disjoint serialPorts k hk hk'
    · exact fun k hk hk' => hsendCalc k hk hk'
    · exact fun k hk hk' => hsendPoint k hk' hk
    · exact fun k hk hk' => hinfraPoint k hk' hk
    · exact fun k hk hk' => hcalc k hk' hk
  · rintro ⟨hpoints, ⟨hsends, ⟨hinfra, -, hinfraCalc⟩, -, hsendCalc⟩, hsendPoint, hinfraPoint, hcalc⟩
    exact ⟨hpoints, fun k hk hk' => hcalc hk' hk, hsends, fun k hk hk' => hsendPoint hk' hk,
      fun k hk hk' => hsendCalc hk hk', hinfra, fun k hk hk' => hinfraPoint hk' hk,
      fun k hk hk' => hinfraCalc hk hk'⟩

end RcdServer.Server
