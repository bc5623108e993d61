import RcdServer.Lib.Run
import RcdServer.Server.Namespace

/-!
# The topology manifest

`topology.rs`: every acquisition point belongs to one device of one port, and a calculation to the
devices its inputs come from. Inputs that are themselves calculations hand on what they belong to;
one unknown input anywhere leaves a calculation without owners. The engine lists a calculation
behind all it references, so a single pass follows every chain of references to its end.
-/
namespace RcdServer.Server

open Calc.Rust (CalcEngine CalcRule CompiledRule)
open Lib (Map)
open Lib.Run (foldlM_history_nil)
open Lib.Text (dedupRuns isControl sortTexts textLe textLt trim)
open Protocol (DeviceConfig Record)
open Relation (TransGen)
open Serial (SerialPortConfig)

/-! ## Manifest -/

structure DeviceOwner where
  portId : String
  deviceId : String
  deriving DecidableEq

structure TopologyDevice where
  deviceId : String
  deviceAddress : UInt8
  name : String
  kksPrefix : String
  nodeIds : List String
  deriving DecidableEq

structure TopologyPort where
  portId : String
  portName : String
  sendNodeId : String
  sendMethodId : String
  devices : List TopologyDevice
  deriving DecidableEq

structure TopologyCalculation where
  nodeId : String
  dependencyNodeIds : List String
  owners : List DeviceOwner
  deriving DecidableEq

structure TopologyManifest where
  schemaVersion : UInt32
  ports : List TopologyPort
  calculations : List TopologyCalculation
  deriving DecidableEq

/-- Ports come before devices, each by its bytes. -/
def DeviceOwner.le (a b : DeviceOwner) : Bool :=
  textLt a.portId b.portId ||
    (a.portId == b.portId && textLe a.deviceId.toList b.deviceId.toList)

/-- `BTreeMap::into_values`. -/
def intoValues {α : Type} (m : Map String α) : List α :=
  (m.entries.insertionSort fun a b => textLe a.1.toList b.1.toList).map (·.2)

/-- `debug` writes a text with its quotes, `{:?}`. -/
def validateIdentifier (debug : String → String) (value kind : String) : Except String Unit :=
  if (trim value).isEmpty || value.toList.any isControl then
    .error ("拓扑" ++ kind ++ "标识非法: " ++ debug value)
  else .ok ()

variable {F64 F32 : Type}

/-- `output_dependencies`: outputs in the order of evaluation, with all they mention. -/
def outputDependencies (engine : CalcEngine F64) : List (String × List String) :=
  engine.rules.map fun rule => (rule.kksCalc, rule.vars)

/-! ## Ports, devices and points -/

/-- The body of the innermost loop; the state is `point_owners` with `node_ids`. -/
def addRecord (debug : String → String) (owner : DeviceOwner)
    (s : Map String DeviceOwner × List String) (record : Record) :
    Except String (Map String DeviceOwner × List String) :=
  match validateIdentifier debug record.kks "点位" with
  | .error e => .error e
  | .ok _ =>
    match s.1.lookup record.kks with
    | some previous =>
      .error s!"拓扑点位归属重复: {record.kks} 属于 {previous.portId}:{previous.deviceId} 和 {owner.portId}:{owner.deviceId}"
    | none => .ok (s.1.insert record.kks owner, s.2 ++ [record.kks])

def deviceOwner (port : SerialPortConfig) (device : DeviceConfig) : DeviceOwner :=
  ⟨port.portNumber, toString device.config.deviceId.toNat⟩

def topologyDevice (device : DeviceConfig) (nodeIds : List String) : TopologyDevice where
  deviceId := toString device.config.deviceId.toNat
  deviceAddress := device.config.deviceId
  name := s!"设备 {device.config.deviceId}"
  kksPrefix := device.config.kksPrefix
  nodeIds := sortTexts nodeIds

/-- The loop over the devices of a port; the state is `point_owners` with `devices`. -/
def addDevice (debug : String → String) (port : SerialPortConfig)
    (s : Map String DeviceOwner × Map String TopologyDevice) (device : DeviceConfig) :
    Except String (Map String DeviceOwner × Map String TopologyDevice) :=
  let owner := deviceOwner port device
  if device.config.com ≠ port.portNumber then
    .error s!"拓扑设备串口不一致: 设备配置 {device.config.com}:{device.config.deviceId} 位于 {port.portNumber}"
  else if owner.deviceId ∈ s.2 then
    .error s!"拓扑设备重复: {port.portNumber}:{owner.deviceId}"
  else
    match device.records.foldlM (addRecord debug owner) (s.1, []) with
    | .error e => .error e
    | .ok (pointOwners, nodeIds) =>
      .ok (pointOwners, s.2.insert owner.deviceId (topologyDevice device nodeIds))

def topologyPort (port : SerialPortConfig) (devices : Map String TopologyDevice) :
    TopologyPort where
  portId := port.portNumber
  portName := opcPortStem port.portNumber
  sendNodeId := opcSendNodeName port.portNumber
  sendMethodId := opcSendMethodName port.portNumber
  devices := intoValues devices

/-- The loop over the ports; the state is `point_owners` with `ports`. -/
def addPort (debug : String → String) (s : Map String DeviceOwner × Map String TopologyPort)
    (port : SerialPortConfig) : Except String (Map String DeviceOwner × Map String TopologyPort) :=
  match validateIdentifier debug port.portNumber "串口" with
  | .error e => .error e
  | .ok _ =>
    if port.portNumber ∈ s.2 then .error s!"拓扑串口重复: {port.portNumber}"
    else
      match validateIdentifier debug (opcPortStem port.portNumber) "串口显示名" with
      | .error e => .error e
      | .ok _ =>
        match port.devices.foldlM (addDevice debug port) (s.1, ∅) with
        | .error e => .error e
        | .ok (pointOwners, devices) =>
          .ok (pointOwners, s.2.insert port.portNumber (topologyPort port devices))

/-! ## Calculations -/

/-- Owners, a set listed without repetitions, and whether every input is known. -/
abbrev Resolved := List DeviceOwner × Bool

def addDependency (pointOwners : Map String DeviceOwner) (resolved : Map String Resolved)
    (s : Resolved) (dependency : String) : Resolved :=
  match pointOwners.lookup dependency with
  | some owner => (s.1.insert owner, s.2)
  | none =>
    match resolved.lookup dependency with
    | some (inherited, known) => (inherited ∪ s.1, s.2 && known)
    | none => (s.1, false)

/-- Owners are dropped unless all inputs are known. -/
def resolve (pointOwners : Map String DeviceOwner) (resolved : Map String Resolved)
    (dependencies : List String) : Resolved :=
  let (owners, fullyResolved) :=
    dependencies.foldl (addDependency pointOwners resolved) ([], true)
  if fullyResolved then (owners, true) else ([], false)

/-- The loop over the outputs; the state is `resolved_calculations` with `calculations`. -/
def addCalculation (debug : String → String) (pointOwners : Map String DeviceOwner)
    (s : Map String Resolved × Map String TopologyCalculation) (output : String × List String) :
    Except String (Map String Resolved × Map String TopologyCalculation) :=
  match validateIdentifier debug output.1 "计算点" with
  | .error e => .error e
  | .ok _ =>
    if output.1 ∈ pointOwners ∨ output.1 ∈ s.2 then .error s!"拓扑计算点归属重复: {output.1}"
    else
      let dependencyNodeIds := dedupRuns (sortTexts output.2)
      let result := resolve pointOwners s.1 dependencyNodeIds
      let owners := result.1.insertionSort fun a b => a.le b
      .ok (s.1.insert output.1 result,
        s.2.insert output.1 ⟨output.1, dependencyNodeIds, owners⟩)

def TopologyManifest.build (debug : String → String) (serialPorts : List SerialPortConfig)
    (engine : CalcEngine F64) : Except String TopologyManifest :=
  match serialPorts.foldlM (addPort debug) (∅, ∅) with
  | .error e => .error e
  | .ok (pointOwners, ports) =>
    match (outputDependencies engine).foldlM (addCalculation debug pointOwners) (∅, ∅) with
    | .error e => .error e
    | .ok (_, calculations) => .ok ⟨1, intoValues ports, intoValues calculations⟩

/-- `data_node_ids`. -/
def TopologyManifest.dataNodeIds (m : TopologyManifest) : List String :=
  (m.ports.flatMap fun port => port.devices.flatMap TopologyDevice.nodeIds) ++
    m.calculations.map (·.nodeId)

/-! ## Points and their devices -/

def deviceOwned (port : SerialPortConfig) (device : DeviceConfig) : List (DeviceOwner × String) :=
  device.records.map fun record => (deviceOwner port device, record.kks)

def portOwned (port : SerialPortConfig) : List (DeviceOwner × String) :=
  port.devices.flatMap (deviceOwned port)

/-- Every acquisition point with the device it belongs to. -/
def owned (serialPorts : List SerialPortConfig) : List (DeviceOwner × String) :=
  serialPorts.flatMap portOwned

/-- The map lists the owners of pairwise different points. -/
structure Owners (pairs : List (DeviceOwner × String)) (m : Map String DeviceOwner) : Prop where
  nodup : (pairs.map (·.2)).Nodup
  lookup : ∀ k o, m.lookup k = some o ↔ (o, k) ∈ pairs

theorem Owners.add {pairs : List (DeviceOwner × String)} {m : Map String DeviceOwner} {k : String}
    {o : DeviceOwner} (h : Owners pairs m) (hk : m.lookup k = none) :
    Owners (pairs ++ [(o, k)]) (m.insert k o) := by
  have hnew : ∀ p, (p, k) ∉ pairs := by
    intro p hp
    rw [(h.lookup k p).mpr hp] at hk
    cases hk
  constructor
  · rw [List.map_append, List.nodup_append']
    refine ⟨h.nodup, List.nodup_singleton _, fun j hj hjk => ?_⟩
    obtain rfl := List.mem_singleton.mp hjk
    obtain ⟨⟨p, j⟩, hp, rfl⟩ := List.mem_map.mp hj
    exact hnew p hp
  · intro j p
    rw [Map.lookup_insert_eq, List.mem_append, List.mem_singleton, Prod.mk.injEq, ← h.lookup]
    split_ifs with hj
    · subst hj
      rw [hk, Option.some.injEq]
      exact ⟨fun heq => .inr ⟨heq.symm, rfl⟩, fun hor => hor.elim nofun fun hp => hp.1.symm⟩
    · exact ⟨.inl, fun hor => hor.resolve_right fun hp => hj hp.2⟩

theorem intoValues_perm {α : Type} (m : Map String α) :
    (intoValues m).Perm (m.entries.map (·.2)) :=
  (List.perm_insertionSort _ _).map _

theorem intoValues_insert {α : Type} {m : Map String α} {k : String} {a : α} (hk : k ∉ m) :
    (intoValues (m.insert k a)).Perm (a :: intoValues m) := by
  refine (intoValues_perm _).trans ?_
  rw [AList.entries_insert_of_notMem hk]
  exact (intoValues_perm m).symm.cons a

section Loops

variable {debug : String → String}

theorem addRecord_ok {owner : DeviceOwner} {s s' : Map String DeviceOwner × List String}
    {record : Record} (h : addRecord debug owner s record = .ok s') :
    s.1.lookup record.kks = none ∧ s' = (s.1.insert record.kks owner, s.2 ++ [record.kks]) := by
  unfold addRecord at h
  split at h
  · cases h
  · split at h
    · cases h
    · rename_i hnone
      exact ⟨hnone, (Except.ok.inj h).symm⟩

theorem addRecords_ok {owner : DeviceOwner} {pairs : List (DeviceOwner × String)}
    {m m' : Map String DeviceOwner} {ids : List String} {records : List Record}
    (hm : Owners pairs m) (h : records.foldlM (addRecord debug owner) (m, []) = .ok (m', ids)) :
    Owners (pairs ++ records.map fun record => (owner, record.kks)) m' ∧
      ids = records.map Record.kks := by
  refine foldlM_history_nil (fun done s => Owners (pairs ++ done.map fun record => (owner, record.kks)) s.1 ∧
    s.2 = done.map Record.kks) (fun done record s s' hs hround => ?_)
    ⟨by simpa using hm, rfl⟩ h
  obtain ⟨hnone, rfl⟩ := addRecord_ok hround
  rw [List.map_append, List.map_append, ← List.append_assoc]
  exact ⟨hs.1.add hnone, congrArg (· ++ [record.kks]) hs.2⟩

/-- The points listed by a map of devices. -/
def deviceNodes (devices : Map String TopologyDevice) : List String :=
  (intoValues devices).flatMap TopologyDevice.nodeIds

theorem addDevice_ok {port : SerialPortConfig} {pairs : List (DeviceOwner × String)}
    {s s' : Map String DeviceOwner × Map String TopologyDevice} {device : DeviceConfig}
    (hs : Owners pairs s.1) (h : addDevice debug port s device = .ok s') :
    Owners (pairs ++ deviceOwned port device) s'.1 ∧
      (deviceNodes s'.2).Perm (device.records.map Record.kks ++ deviceNodes s.2) := by
  simp only [addDevice] at h
  split at h
  · cases h
  · split at h
    · cases h
    · rename_i hnew
      split at h
      · cases h
      · rename_i m' ids hrecords
        obtain rfl := Except.ok.inj h
        obtain ⟨hm', rfl⟩ := addRecords_ok hs hrecords
        refine ⟨hm', ((intoValues_insert hnew).flatMap_right _).trans ?_⟩
        rw [List.flatMap_cons]
        exact (List.perm_insertionSort _ _).append_right _

theorem addDevices_ok {port : SerialPortConfig} {pairs : List (DeviceOwner × String)}
    {m m' : Map String DeviceOwner} {devices : Map String TopologyDevice}
    (hm : Owners pairs m) (h : port.devices.foldlM (addDevice debug port) (m, ∅) = .ok (m', devices)) :
    Owners (pairs ++ portOwned port) m' ∧
      (deviceNodes devices).Perm ((portOwned port).map (·.2)) := by
  refine foldlM_history_nil (fun done s => Owners (pairs ++ done.flatMap (deviceOwned port)) s.1 ∧
    (deviceNodes s.2).Perm ((done.flatMap (deviceOwned port)).map (·.2)))
    (fun done device s s' hs hround => ?_) ⟨by simpa using hm, .refl _⟩ h
  obtain ⟨howners, hnodes⟩ := addDevice_ok hs.1 hround
  have hkks : (deviceOwned port device).map (·.2) = device.records.map Record.kks := by
    simp [deviceOwned, Function.comp_def]
  simp only [List.flatMap_append, List.flatMap_singleton, List.map_append, hkks]
  refine ⟨by rwa [List.append_assoc] at howners, ?_⟩
  exact hnodes.trans (List.perm_append_comm.trans (hs.2.append_right _))

def portNodes (ports : Map String TopologyPort) : List String :=
  (intoValues ports).flatMap fun port => port.devices.flatMap TopologyDevice.nodeIds

theorem addPort_ok {pairs : List (DeviceOwner × String)}
    {s s' : Map String DeviceOwner × Map String TopologyPort} {port : SerialPortConfig}
    (hs : Owners pairs s.1) (h : addPort debug s port = .ok s') :
    Owners (pairs ++ portOwned port) s'.1 ∧
      (portNodes s'.2).Perm ((portOwned port).map (·.2) ++ portNodes s.2) := by
  simp only [addPort] at h
  split at h
  · cases h
  · split at h
    · cases h
    · rename_i hnew
      split at h
      · cases h
      · split at h
        · cases h
        · rename_i m' devices hdevices
          obtain rfl := Except.ok.inj h
          obtain ⟨hm', hnodes⟩ := addDevices_ok hs hdevices
          refine ⟨hm', ((intoValues_insert hnew).flatMap_right _).trans ?_⟩
          rw [List.flatMap_cons]
          exact hnodes.append_right _

theorem addPorts_ok {serialPorts : List SerialPortConfig} {m : Map String DeviceOwner}
    {ports : Map String TopologyPort}
    (h : serialPorts.foldlM (addPort debug) (∅, ∅) = .ok (m, ports)) :
    Owners (owned serialPorts) m ∧ (portNodes ports).Perm ((owned serialPorts).map (·.2)) := by
  refine foldlM_history_nil (fun done s => Owners (owned done) s.1 ∧
    (portNodes s.2).Perm ((owned done).map (·.2)))
    (fun done port s s' hs hround => ?_) ⟨⟨List.nodup_nil, ?_⟩, .refl _⟩ h
  · obtain ⟨howners, hnodes⟩ := addPort_ok hs.1 hround
    simp only [owned, List.flatMap_append, List.flatMap_singleton, List.map_append]
    exact ⟨howners, hnodes.trans (List.perm_append_comm.trans (hs.2.append_right _))⟩
  · simp [owned]

end Loops

/-! ## Chains of references -/

section Chains

variable {α : Type*} {r : α → α → Prop}

/-- What lies at the end of a chain is the first step, or lies behind it. -/
theorem transGen_head_iff {x y : α} :
    TransGen r x y ↔ ∃ d, r x d ∧ (y = d ∨ TransGen r d y) := by
  rw [TransGen.head'_iff]
  exact exists_congr fun d => and_congr_right fun _ => Relation.reflTransGen_iff_eq_or_transGen

theorem forall_transGen {x : α} {p : α → Prop} :
    (∀ y, TransGen r x y → p y) ↔ ∀ d, r x d → p d ∧ ∀ y, TransGen r d y → p y := by
  constructor
  · intro h d hd
    exact ⟨h d (.single hd), fun y hy => h y (.head hd hy)⟩
  · intro h y hy
    obtain ⟨d, hd, rfl | hdy⟩ := transGen_head_iff.mp hy
    · exact (h y hd).1
    · exact (h d hd).2 y hdy

theorem exists_transGen {x : α} {p : α → Prop} :
    (∃ y, TransGen r x y ∧ p y) ↔ ∃ d, r x d ∧ (p d ∨ ∃ y, TransGen r d y ∧ p y) := by
  constructor
  · rintro ⟨y, hy, hp⟩
    obtain ⟨d, hd, rfl | hdy⟩ := transGen_head_iff.mp hy
    · exact ⟨y, hd, .inl hp⟩
    · exact ⟨d, hd, .inr ⟨y, hdy, hp⟩⟩
  · rintro ⟨d, hd, hp | ⟨y, hdy, hp⟩⟩
    · exact ⟨d, .single hd, hp⟩
    · exact ⟨y, .head hd hdy, hp⟩

end Chains

/-- The rule of `x` mentions `y`. -/
def DependsOn (engine : CalcEngine F64) (x y : String) : Prop :=
  ∃ dependencies, (x, dependencies) ∈ outputDependencies engine ∧ y ∈ dependencies

/-- The point belongs to the device. -/
def Owns (serialPorts : List SerialPortConfig) (owner : DeviceOwner) (kks : String) : Prop :=
  ∃ port ∈ serialPorts, ∃ device ∈ port.devices, ∃ record ∈ device.records,
    owner = deviceOwner port device ∧ record.kks = kks

/-- A chain of references ends at `y`: no rule computes it. -/
def Leaf (engine : CalcEngine F64) (x y : String) : Prop :=
  TransGen (DependsOn engine) x y ∧ y ∉ engine.outputNames

theorem mem_owned {serialPorts : List SerialPortConfig} {owner : DeviceOwner} {kks : String} :
    (owner, kks) ∈ owned serialPorts ↔ Owns serialPorts owner kks := by
  simp only [owned, portOwned, deviceOwned, List.mem_flatMap, List.mem_map, Prod.mk.injEq, Owns]
  constructor
  · rintro ⟨port, hport, device, hdevice, record, hrecord, rfl, rfl⟩
    exact ⟨port, hport, device, hdevice, record, hrecord, rfl, rfl⟩
  · rintro ⟨port, hport, device, hdevice, record, hrecord, rfl, rfl⟩
    exact ⟨port, hport, device, hdevice, record, hrecord, rfl, rfl⟩

/-! ## One pass over the outputs -/

/-- What a dependency contributes. -/
def given (pointOwners : Map String DeviceOwner) (resolved : Map String Resolved)
    (dependency : String) : Resolved :=
  match pointOwners.lookup dependency with
  | some owner => ([owner], true)
  | none => (resolved.lookup dependency).getD ([], false)

section Pass

variable {pointOwners : Map String DeviceOwner} {resolved : Map String Resolved}

theorem addDependency_eq (s : Resolved) (dependency : String) :
    addDependency pointOwners resolved s dependency =
      ((given pointOwners resolved dependency).1 ∪ s.1,
        s.2 && (given pointOwners resolved dependency).2) := by
  unfold addDependency given
  cases pointOwners.lookup dependency with
  | some owner => simp
  | none => cases resolved.lookup dependency <;> simp

theorem foldl_addDependency (dependencies : List String) (s : Resolved) :
    ((dependencies.foldl (addDependency pointOwners resolved) s).2 = true ↔
      s.2 = true ∧ ∀ d ∈ dependencies, (given pointOwners resolved d).2 = true) ∧
    (∀ o, o ∈ (dependencies.foldl (addDependency pointOwners resolved) s).1 ↔
      o ∈ s.1 ∨ ∃ d ∈ dependencies, o ∈ (given pointOwners resolved d).1) ∧
    (s.1.Nodup → (dependencies.foldl (addDependency pointOwners resolved) s).1.Nodup) := by
  induction dependencies generalizing s with
  | nil => simp
  | cons d dependencies ih =>
    obtain ⟨hknown, howners, hnodup⟩ := ih (addDependency pointOwners resolved s d)
    rw [List.foldl_cons]
    refine ⟨hknown.trans ?_, fun o => (howners o).trans ?_, fun hs => hnodup ?_⟩
    · rw [addDependency_eq, Bool.and_eq_true, List.forall_mem_cons, and_assoc]
    · rw [addDependency_eq, List.mem_union_iff, List.exists_mem_cons_iff]
      tauto
    · rw [addDependency_eq]
      exact List.Nodup.union _ hs

theorem resolve_spec (dependencies : List String) :
    ((resolve pointOwners resolved dependencies).2 = true ↔
      ∀ d ∈ dependencies, (given pointOwners resolved d).2 = true) ∧
    (∀ o, o ∈ (resolve pointOwners resolved dependencies).1 ↔
      (resolve pointOwners resolved dependencies).2 = true ∧
        ∃ d ∈ dependencies, o ∈ (given pointOwners resolved d).1) ∧
    (resolve pointOwners resolved dependencies).1.Nodup := by
  obtain ⟨hknown, howners, hnodup⟩ :=
    @foldl_addDependency pointOwners resolved dependencies ([], true)
  unfold resolve
  simp only [true_and, List.not_mem_nil, false_or] at hknown howners ⊢
  split_ifs with h
  · exact ⟨⟨fun _ => hknown.mp h, fun _ => rfl⟩,
      fun o => (howners o).trans ⟨fun ho => ⟨rfl, ho⟩, fun ho => ho.2⟩, hnodup List.nodup_nil⟩
  · refine ⟨⟨nofun, fun hall => absurd (hknown.mpr hall) h⟩, fun o => ?_, List.nodup_nil⟩
    exact ⟨fun ho => absurd ho List.not_mem_nil, fun ho => by cases ho.1⟩

end Pass

section Closure

variable {serialPorts : List SerialPortConfig} {engine : CalcEngine F64}

/-- What the closure of the references of `x` says about its owners. -/
structure Inherits (serialPorts : List SerialPortConfig) (engine : CalcEngine F64) (x : String)
    (result : Resolved) : Prop where
  known : result.2 = true ↔ ∀ y, Leaf engine x y → ∃ o, Owns serialPorts o y
  owners : ∀ o, o ∈ result.1 ↔
    result.2 = true ∧ ∃ y, TransGen (DependsOn engine) x y ∧ Owns serialPorts o y
  nodup : result.1.Nodup

theorem mem_outputNames {x : String} :
    x ∈ engine.outputNames ↔ ∃ dependencies, (x, dependencies) ∈ outputDependencies engine := by
  simp [CalcEngine.outputNames, outputDependencies]

theorem transGen_output {x y : String} (h : TransGen (DependsOn engine) x y) :
    x ∈ engine.outputNames := by
  obtain ⟨d, ⟨dependencies, hmem, -⟩, -⟩ := transGen_head_iff.mp h
  exact mem_outputNames.mpr ⟨dependencies, hmem⟩

/-- The maps of the pass, halfway: what is resolved is right, and nothing that a rule mentions and
another computes is missing. -/
structure Halfway (serialPorts : List SerialPortConfig) (engine : CalcEngine F64)
    (pointOwners : Map String DeviceOwner) (resolved : Map String Resolved) : Prop where
  points : Owners (owned serialPorts) pointOwners
  apart : ∀ x ∈ engine.outputNames, ∀ o, ¬ Owns serialPorts o x
  resolved : ∀ x result, resolved.lookup x = some result →
    x ∈ engine.outputNames ∧ Inherits serialPorts engine x result

/-- A dependency contributes what it owns itself and what lies behind it. -/
theorem Halfway.given_spec {pointOwners : Map String DeviceOwner} {resolved : Map String Resolved}
    (h : Halfway serialPorts engine pointOwners resolved) {d : String}
    (hd : d ∈ engine.outputNames → ∃ result, resolved.lookup d = some result) :
    ((given pointOwners resolved d).2 = true ↔
      (d ∉ engine.outputNames → ∃ o, Owns serialPorts o d) ∧
        ∀ y, TransGen (DependsOn engine) d y → y ∉ engine.outputNames →
          ∃ o, Owns serialPorts o y) ∧
    ((given pointOwners resolved d).2 = true → ∀ o, o ∈ (given pointOwners resolved d).1 ↔
      Owns serialPorts o d ∨ ∃ y, TransGen (DependsOn engine) d y ∧ Owns serialPorts o y) := by
  have howns : ∀ o, pointOwners.lookup d = some o ↔ Owns serialPorts o d := fun o =>
    (h.points.lookup d o).trans mem_owned
  unfold given
  cases hpoint : pointOwners.lookup d with
  | some owner =>
    have howner : Owns serialPorts owner d := (howns owner).mp hpoint
    have hend : ∀ y, ¬ TransGen (DependsOn engine) d y := fun y hy =>
      h.apart d (transGen_output hy) owner howner
    refine ⟨⟨fun _ => ⟨fun _ => ⟨owner, howner⟩, fun y hy => absurd hy (hend y)⟩, fun _ => rfl⟩,
      fun _ o => ?_⟩
    rw [List.mem_singleton, ← howns o, hpoint, Option.some.injEq]
    refine ⟨fun heq => .inl heq.symm, fun hor => ?_⟩
    exact hor.elim Eq.symm fun ⟨y, hy, _⟩ => absurd hy (hend y)
  | none =>
    have hnone : ∀ o, ¬ Owns serialPorts o d := by
      intro o ho
      rw [(howns o).mpr ho] at hpoint
      cases hpoint
    cases hresult : resolved.lookup d with
    | some result =>
      obtain ⟨hout, hinherits⟩ := h.resolved d result hresult
      refine ⟨hinherits.known.trans ⟨fun hall => ?_, fun hall y hy => hall.2 y hy.1 hy.2⟩,
        fun hknown o => (hinherits.owners o).trans ⟨fun ho => .inr ho.2, fun ho => ?_⟩⟩
      · exact ⟨fun hno => absurd hout hno, fun y hy hno => hall y ⟨hy, hno⟩⟩
      · exact ⟨hknown, ho.resolve_left (hnone o)⟩
    | none =>
      have hleaf : d ∉ engine.outputNames := by
        intro hout
        obtain ⟨result, hsome⟩ := hd hout
        rw [hresult] at hsome
        cases hsome
      refine ⟨⟨nofun, fun hall => ?_⟩, nofun⟩
      obtain ⟨o, ho⟩ := hall.1 hleaf
      exact absurd ho (hnone o)

theorem Halfway.inherits {pointOwners : Map String DeviceOwner} {resolved : Map String Resolved}
    (h : Halfway serialPorts engine pointOwners resolved) {x : String} {dependencies : List String}
    (hx : ∀ d, DependsOn engine x d ↔ d ∈ dependencies)
    (hbefore : ∀ d ∈ dependencies, d ∈ engine.outputNames →
      ∃ result, resolved.lookup d = some result) :
    Inherits serialPorts engine x
      (resolve pointOwners resolved (dedupRuns (sortTexts dependencies))) := by
  obtain ⟨hknown, howners, hnodup⟩ :=
    @resolve_spec pointOwners resolved (dedupRuns (sortTexts dependencies))
  have hdeps : ∀ d, d ∈ dedupRuns (sortTexts dependencies) ↔ DependsOn engine x d := by
    intro d
    rw [Lib.Text.mem_dedupRuns, Lib.Text.mem_sortTexts, hx]
  simp only [hdeps] at hknown howners
  have hgiven : ∀ d, DependsOn engine x d → _ := fun d hd =>
    h.given_spec (hbefore d ((hx d).mp hd))
  refine ⟨hknown.trans ?_, fun o => (howners o).trans (and_congr_right fun hall => ?_), hnodup⟩
  · have hchain := forall_transGen (r := DependsOn engine) (x := x)
      (p := fun y => y ∉ engine.outputNames → ∃ o, Owns serialPorts o y)
    refine (forall₂_congr fun d hd => (hgiven d hd).1).trans (hchain.symm.trans ?_)
    exact ⟨fun hall y hy => hall y hy.1 hy.2, fun hall y hy hno => hall y ⟨hy, hno⟩⟩
  · rw [exists_transGen]
    refine exists_congr fun d => and_congr_right fun hd => ?_
    exact (hgiven d hd).2 (hknown.mp hall d hd) o

end Closure

/-! ## The manifest -/

section Build

variable {debug : String → String} {pointOwners : Map String DeviceOwner}

theorem addCalculation_ok {s s' : Map String Resolved × Map String TopologyCalculation}
    {output : String × List String} (h : addCalculation debug pointOwners s output = .ok s') :
    output.1 ∉ pointOwners ∧ output.1 ∉ s.2 ∧ ∃ result,
      result = resolve pointOwners s.1 (dedupRuns (sortTexts output.2)) ∧
      s' = (s.1.insert output.1 result, s.2.insert output.1 ⟨output.1,
        dedupRuns (sortTexts output.2), result.1.insertionSort fun a b => a.le b⟩) := by
  simp only [addCalculation] at h
  split at h
  · cases h
  · split at h
    · cases h
    · rename_i hnew
      rw [not_or] at hnew
      exact ⟨hnew.1, hnew.2, _, rfl, (Except.ok.inj h).symm⟩

/-- No output is a point, and every output is listed. -/
theorem addCalculations_listed {outputs : List (String × List String)}
    {s : Map String Resolved × Map String TopologyCalculation}
    (h : outputs.foldlM (addCalculation debug pointOwners) (∅, ∅) = .ok s) :
    (∀ output ∈ outputs, output.1 ∉ pointOwners) ∧
      ((intoValues s.2).map (·.nodeId)).Perm (outputs.map (·.1)) := by
  refine foldlM_history_nil (fun done s => (∀ output ∈ done, output.1 ∉ pointOwners) ∧
    ((intoValues s.2).map (·.nodeId)).Perm (done.map (·.1)))
    (fun done output s s' hs hround => ?_) ⟨by simp, .refl _⟩ h
  obtain ⟨hpoint, hnew, result, -, rfl⟩ := addCalculation_ok hround
  constructor
  · intro c hc
    rcases List.mem_append.mp hc with hold | hlast
    · exact hs.1 c hold
    · rw [List.mem_singleton.mp hlast]
      exact hpoint
  · rw [List.map_append]
    exact ((intoValues_insert hnew).map _).trans
      ((hs.2.cons _).trans (List.perm_append_singleton _ _).symm)

variable [Calc.FloatOps F64 F32] {rules : List (CalcRule F64)}

/-- What a rule mentions and another computes stands before it. -/
theorem outputs_ordered {done rest : List (String × List String)} {output : String × List String}
    (h : outputDependencies (CalcEngine.new rules) = done ++ output :: rest) :
    (∀ d, DependsOn (CalcEngine.new rules) output.1 d ↔ d ∈ output.2) ∧
      ∀ d ∈ output.2, d ∈ (CalcEngine.new rules).outputNames → d ∈ done.map (·.1) := by
  have houtputs : ((outputDependencies (CalcEngine.new rules)).map (·.1)).Nodup := by
    have hnodup := Calc.Rust.nodup_outputs rules
    rwa [CalcEngine.outputNames, show (fun rule : CompiledRule F64 => rule.kksCalc) =
      Prod.fst ∘ fun rule => (rule.kksCalc, rule.vars) from rfl, ← List.map_map] at hnodup
  have hmem : output ∈ outputDependencies (CalcEngine.new rules) := by simp [h]
  constructor
  · intro d
    constructor
    · rintro ⟨dependencies, hdep, hd⟩
      rw [List.inj_on_of_nodup_map houtputs hmem hdep rfl]
      exact hd
    · exact fun hd => ⟨output.2, hmem, hd⟩
  · intro d hd hout
    obtain ⟨before, tail, hrules, rfl, htail⟩ := List.map_eq_append_iff.mp h
    obtain ⟨a, after, rfl, rfl, -⟩ := List.map_eq_cons_iff.mp htail
    obtain ⟨b, hb, rfl⟩ := List.mem_map.mp hout
    have ha : a ∈ (CalcEngine.new rules).rules := by simp [hrules]
    have hcompiled : a ∈ Calc.Rust.compileRules rules :=
      Calc.Rust.mem_compileRules.mpr (Calc.Rust.mem_rules_iff.mp ha).1
    have hbefore : b ∈ before := Calc.Rust.references_before hrules
      ⟨(Calc.Rust.mem_rules_iff.mp ha).1, (Calc.Rust.mem_rules_iff.mp hb).1,
        (Calc.Rust.mem_vars hcompiled _).mp hd⟩
    exact List.mem_map.mpr ⟨_, List.mem_map_of_mem hbefore, rfl⟩

/-- The invariant of the pass over the outputs. -/
theorem addCalculations_inherits {serialPorts : List SerialPortConfig}
    {s : Map String Resolved × Map String TopologyCalculation}
    (hpoints : Owners (owned serialPorts) pointOwners)
    (h : (outputDependencies (CalcEngine.new rules)).foldlM (addCalculation debug pointOwners)
      (∅, ∅) = .ok s) :
    ∀ calculation ∈ intoValues s.2, ∃ result,
      Inherits serialPorts (CalcEngine.new rules) calculation.nodeId result ∧
        calculation.owners.Perm result.1 := by
  have hapart : ∀ x ∈ (CalcEngine.new rules).outputNames, ∀ o, ¬ Owns serialPorts o x := by
    intro x hx o ho
    obtain ⟨dependencies, hmem⟩ := mem_outputNames.mp hx
    have hno := (addCalculations_listed h).1 _ hmem
    exact hno (Map.mem_iff.mpr ⟨o, (hpoints.lookup x o).mpr (mem_owned.mpr ho)⟩)
  have hinv := foldlM_history_nil
    (fun done (s : Map String Resolved × Map String TopologyCalculation) =>
      done <+: outputDependencies (CalcEngine.new rules) →
        Halfway serialPorts (CalcEngine.new rules) pointOwners s.1 ∧
        (∀ x ∈ done.map (·.1), ∃ result, s.1.lookup x = some result) ∧
        ∀ calculation ∈ intoValues s.2, ∃ result,
          Inherits serialPorts (CalcEngine.new rules) calculation.nodeId result ∧
            calculation.owners.Perm result.1)
    (fun done output s s' hs hround hpart => ?_)
    (fun _ => ⟨⟨hpoints, hapart, by simp⟩, by simp, by simp [intoValues]⟩) h
  · exact (hinv (List.prefix_refl _)).2.2
  · obtain ⟨hhalf, hdone, hcalculations⟩ := hs ((List.prefix_append _ _).trans hpart)
    obtain ⟨rest, hrest⟩ := hpart
    have hsplit : outputDependencies (CalcEngine.new rules) = done ++ output :: rest := by
      rw [← hrest, List.append_assoc]
      rfl
    obtain ⟨hdeps, hbefore⟩ := outputs_ordered hsplit
    obtain ⟨-, hnew, result, rfl, rfl⟩ := addCalculation_ok hround
    have hinherits := hhalf.inherits hdeps fun d hd hout => hdone d (hbefore d hd hout)
    have hout : output.1 ∈ (CalcEngine.new rules).outputNames :=
      mem_outputNames.mpr ⟨output.2, by simp [hsplit]⟩
    refine ⟨⟨hpoints, hapart, fun x result hx => ?_⟩, fun x hx => ?_, fun calculation hc => ?_⟩
    · rw [Map.lookup_insert_eq] at hx
      split_ifs at hx with heq
      · obtain rfl := Option.some.inj hx
        exact heq ▸ ⟨hout, hinherits⟩
      · exact hhalf.resolved x result hx
    · rw [Map.lookup_insert_eq]
      split_ifs with heq
      · exact ⟨_, rfl⟩
      · rw [List.map_append, List.mem_append] at hx
        exact hdone x (hx.resolve_right fun hlast => heq (List.mem_singleton.mp hlast))
    · rcases List.mem_cons.mp ((intoValues_insert hnew).subset hc) with rfl | hold
      · exact ⟨_, hinherits, List.perm_insertionSort _ _⟩
      · exact hcalculations calculation hold

/-- For every list of ports and every engine of which a manifest is built: a calculation belongs to
the devices of all points in the closure of its references when every leaf of it is a point, and to
none as soon as one leaf is unknown; points and calculations are listed once each. -/
theorem ownership_closure (debug : String → String) (serialPorts : List SerialPortConfig)
    (rules : List (CalcRule F64)) (manifest : TopologyManifest)
    (h : TopologyManifest.build debug serialPorts (CalcEngine.new rules) = .ok manifest) :
    (∀ calculation ∈ manifest.calculations,
      calculation.owners.Nodup ∧
      ((∀ y, Leaf (CalcEngine.new rules) calculation.nodeId y → ∃ o, Owns serialPorts o y) →
        ∀ o, o ∈ calculation.owners ↔
          ∃ y, TransGen (DependsOn (CalcEngine.new rules)) calculation.nodeId y ∧
            Owns serialPorts o y) ∧
      ((∃ y, Leaf (CalcEngine.new rules) calculation.nodeId y ∧ ∀ o, ¬ Owns serialPorts o y) →
        calculation.owners = [])) ∧
    (manifest.calculations.map (·.nodeId)).Perm (CalcEngine.new rules).outputNames ∧
    manifest.dataNodeIds.Nodup ∧
    ∀ x, x ∈ manifest.dataNodeIds ↔
      (∃ o, Owns serialPorts o x) ∨ x ∈ (CalcEngine.new rules).outputNames := by
  unfold TopologyManifest.build at h
  split at h
  · cases h
  · rename_i pointOwners ports hports
    split at h
    · cases h
    · rename_i s calculations hcalculations
      obtain rfl := Except.ok.inj h
      obtain ⟨howners, hnodes⟩ := addPorts_ok hports
      obtain ⟨hapart, hlisted⟩ := addCalculations_listed hcalculations
      have hnames : (outputDependencies (CalcEngine.new rules)).map (·.1) =
          (CalcEngine.new rules).outputNames := by
        simp [outputDependencies, CalcEngine.outputNames, Function.comp_def]
      rw [hnames] at hlisted
      have hids : (portNodes ports ++ (intoValues calculations).map (·.nodeId)).Perm
          ((owned serialPorts).map (·.2) ++ (CalcEngine.new rules).outputNames) :=
        hnodes.append hlisted
      refine ⟨fun calculation hc => ?_, hlisted, ?_, fun x => ?_⟩
      · obtain ⟨result, hinherits, hperm⟩ :=
          addCalculations_inherits howners hcalculations calculation hc
        refine ⟨hperm.nodup_iff.mpr hinherits.nodup, fun hleaves o => ?_, ?_⟩
        · rw [hperm.mem_iff, hinherits.owners o]
          exact and_iff_right (hinherits.known.mpr hleaves)
        · rintro ⟨y, hy, hno⟩
          have hnone : result.1 = [] := by
            refine List.eq_nil_iff_forall_not_mem.mpr fun o ho => ?_
            obtain ⟨o', ho'⟩ := hinherits.known.mp ((hinherits.owners o).mp ho).1 y hy
            exact hno o' ho'
          rw [hnone] at hperm
          exact hperm.eq_nil
      · refine hids.nodup_iff.mpr (List.nodup_append'.mpr
          ⟨howners.nodup, Calc.Rust.nodup_outputs rules, fun x hx hout => ?_⟩)
        obtain ⟨⟨o, x⟩, hpair, rfl⟩ := List.mem_map.mp hx
        obtain ⟨dependencies, hmem⟩ := mem_outputNames.mp hout
        exact hapart _ hmem (Map.mem_iff.mpr ⟨o, (howners.lookup x o).mpr hpair⟩)
      · refine (hids.mem_iff (a := x)).trans ?_
        rw [List.mem_append, List.mem_map]
        refine or_congr_left ⟨?_, ?_⟩
        · rintro ⟨⟨o, x⟩, hpair, rfl⟩
          exact ⟨o, mem_owned.mp hpair⟩
        · rintro ⟨o, ho⟩
          exact ⟨(o, x), mem_owned.mpr ho, rfl⟩

def samplePoint (kks : String) : Record where
  kks := kks
  type_ := "uint"
  fType := "AI"
  byteIndex := 1
  bitIndex := .single 0
  def_ := 0
  max := 1
  min := 0
  byteOrder := 1

def sampleDevice (com : String) (deviceId : UInt8) (points : List String) : DeviceConfig where
  config := ⟨com, 9600, false, 0, deviceId, 8, "K"⟩
  records := points.map samplePoint

def samplePorts : List SerialPortConfig :=
  [⟨"/dev/ttyS1", [sampleDevice "/dev/ttyS1" 8 ["C"]], true⟩,
    ⟨"COM1", [sampleDevice "COM1" 7 ["B", "A"]], true⟩]

def sampleRule (kksCalc expression : String) : CalcRule Int where
  kksCalc := kksCalc
  dataType := "double"
  expression := expression
  maxLimit := 1000
  minLimit := -1000
  defaultValue := 0

/-- `TOTAL` reaches both devices, `SHARED` reaches them by two ways, `LOST` an unknown name. -/
def sampleRules : List (CalcRule Int) :=
  [sampleRule "LOST" "TOTAL + X", sampleRule "SHARED" "TOTAL * HALF", sampleRule "HALF" "A / 2",
    sampleRule "TOTAL" "A + C"]

theorem ownership_closure_sample : ∃ manifest,
    TopologyManifest.build id samplePorts (CalcEngine.new sampleRules) = .ok manifest ∧
      manifest.calculations.map (fun calculation => (calculation.nodeId, calculation.owners)) =
        [("HALF", [⟨"COM1", "7"⟩]), ("LOST", []),
          ("SHARED", [⟨"/dev/ttyS1", "8"⟩, ⟨"COM1", "7"⟩]),
          ("TOTAL", [⟨"/dev/ttyS1", "8"⟩, ⟨"COM1", "7"⟩])] ∧
      manifest.dataNodeIds.Nodup := by
  have hbuilt : (TopologyManifest.build id samplePorts (CalcEngine.new sampleRules)).toOption.map
      (fun manifest => manifest.calculations.map fun calculation =>
        (calculation.nodeId, calculation.owners)) =
      some [("HALF", [⟨"COM1", "7"⟩]), ("LOST", []),
        ("SHARED", [⟨"/dev/ttyS1", "8"⟩, ⟨"COM1", "7"⟩]),
        ("TOTAL", [⟨"/dev/ttyS1", "8"⟩, ⟨"COM1", "7"⟩])] := by decide +kernel
  cases hbuild : TopologyManifest.build id samplePorts (CalcEngine.new sampleRules) with
  | error e =>
    rw [hbuild] at hbuilt
    cases hbuilt
  | ok manifest =>
    rw [hbuild] at hbuilt
    refine ⟨manifest, rfl, Option.some.inj hbuilt, ?_⟩
    exact (ownership_closure id samplePorts sampleRules manifest hbuild).2.2.1

end Build

end RcdServer.Server
