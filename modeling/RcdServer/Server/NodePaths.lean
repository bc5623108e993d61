import RcdServer.Lib.Paths
import RcdServer.Server.Topology

/-!
# The nodes of the topology

`create_topology_nodes` of `topology.rs`. Names that come from the configuration are percent-coded
before they become a segment of an identifier; the identifiers of devices are decimal numbers.
-/
namespace RcdServer.Server

open Lib.Paths

/-! ## Segments -/

/-- `is_ascii_alphanumeric` and the four marks. -/
def isUnreserved (b : UInt8) : Bool :=
  (48 ≤ b && b ≤ 57) || (65 ≤ b && b ≤ 90) || (97 ≤ b && b ≤ 122) || b == 45 || b == 95 ||
    b == 46 || b == 126

def hexTable : List Char := "0123456789ABCDEF".toList

def pathByte (b : UInt8) : List Char :=
  if isUnreserved b then [Char.ofNat b.toNat]
  else ['%', hexTable.getD (b.toNat / 16) '0', hexTable.getD (b.toNat % 16) '0']

def pathComponent (value : String) : String :=
  String.ofList (value.toByteArray.data.toList.flatMap pathByte)

/-! ## Nodes -/

structure NodeId where
  ns : UInt16
  identifier : String
  deriving DecidableEq

/-- The values of the variables; the data type is that of the value. -/
inductive Variant where
  | string (value : String)
  | strings (values : List String)
  | boolean (value : Bool)
  | byte (value : UInt8)
  | uint16 (value : UInt16)
  | uint32 (value : UInt32)
  | dateTime
  | byteString (bytes : List UInt8)
  deriving DecidableEq

/-- A folder has no value. Without a parent here, it is the objects folder. -/
structure Node where
  id : NodeId
  browseName : String
  displayName : String
  parent : Option NodeId
  value : Option Variant
  deriving DecidableEq

/-- What `create_topology_nodes` does to the address space; the references are `Organizes`. -/
inductive Item where
  | node (n : Node)
  | reference (source target : NodeId)
  deriving DecidableEq

structure AddressSpace where
  nodes : List Node
  references : List (NodeId × NodeId)
  deriving DecidableEq

def AddressSpace.empty : AddressSpace := ⟨[], []⟩

/-- A node is only inserted where there is none with its identifier. -/
def Item.add (space : AddressSpace) : Item → Except String AddressSpace
  | .reference source target =>
    .ok { space with references := space.references ++ [(source, target)] }
  | .node n =>
    if n.id ∈ space.nodes.map (·.id) then
      .error ((if n.value.isNone then "拓扑文件夹创建失败: " else "拓扑只读变量创建失败: ") ++
        n.id.identifier)
    else .ok { space with nodes := space.nodes ++ [n] }

section
variable (ns businessNs : UInt16)

def addFolder (identifier browseName displayName : String) (parent : Option String) : Item :=
  .node ⟨⟨ns, identifier⟩, browseName, displayName, parent.map (NodeId.mk ns), none⟩

def addScalar (identifier name : String) (value : Variant) (parent : String) : Item :=
  .node ⟨⟨ns, identifier⟩, name, name, some ⟨ns, parent⟩, some value⟩

def addString (parentPath name value parent : String) : Item :=
  addScalar ns (parentPath ++ "/" ++ name) name (.string value) parent

def addStrings (identifier name : String) (values : List String) (parent : String) : Item :=
  .node ⟨⟨ns, identifier⟩, name, name, some ⟨ns, parent⟩, some (.strings values)⟩

/-- `insert_reference` to a node of the business namespace. -/
def organizes (source target : String) : Item := .reference ⟨ns, source⟩ ⟨businessNs, target⟩

def stationVersionValues : List (String × Variant) :=
  [("ConfiguredModuleType", .string "unknown"), ("DetectedModuleType", .string "unknown"),
    ("CommunicationModuleVersion", .string ""), ("PLCVersion", .string ""),
    ("VersionState", .string "never_queried"), ("LastVersionError", .string ""),
    ("LastVersionAttemptAt", .dateTime), ("LastVersionSuccessAt", .dateTime),
    ("TypeMismatch", .boolean false), ("Stale", .boolean false),
    ("CommunicationModuleVersionRaw", .uint16 0), ("PLCVersionRaw", .uint16 0),
    ("VersionPayload", .byteString []), ("ConsecutiveFailures", .uint32 0)]

def addStationVersionNodes (devicePath parent : String) : List Item :=
  stationVersionValues.map fun (name, value) =>
    addScalar ns (devicePath ++ "/" ++ name) name value parent

def deviceItems (path : String) (device : TopologyDevice) : List Item :=
  let devicePath := path ++ "/Devices/" ++ device.deviceId
  addFolder ns devicePath device.deviceId device.name (some (path ++ "/Devices")) ::
    ([("DeviceId", device.deviceId), ("Name", device.name), ("KksPrefix", device.kksPrefix)].map
      fun (name, value) => addString ns devicePath name value devicePath) ++
    addScalar ns (devicePath ++ "/DeviceAddress") "DeviceAddress" (.byte device.deviceAddress)
      devicePath ::
    addStationVersionNodes ns devicePath devicePath ++
    addFolder ns (devicePath ++ "/Points") "Points" "Points" (some devicePath) ::
    device.nodeIds.map fun identifier =>
      organizes ns businessNs (devicePath ++ "/Points") identifier

def portPath (portId : String) : String := "Topology/Ports/" ++ pathComponent portId

def portItems (port : TopologyPort) : List Item :=
  let path := portPath port.portId
  addFolder ns path port.portId port.portName (some "Topology/Ports") ::
    ([("PortId", port.portId), ("PortName", port.portName), ("SendNodeId", port.sendNodeId),
      ("SendMethodId", port.sendMethodId), ("SendMethodObjectId", "Methods")].map
      fun (name, value) => addString ns path name value path) ++
    addFolder ns (path ++ "/Commands") "Commands" "Commands" (some path) ::
    organizes ns businessNs (path ++ "/Commands") port.sendNodeId ::
    addFolder ns (path ++ "/Devices") "Devices" "Devices" (some path) ::
    port.devices.flatMap (deviceItems ns businessNs path)

def ownerPath (owner : DeviceOwner) : String :=
  "Topology/Ports/" ++ pathComponent owner.portId ++ "/Devices/" ++ owner.deviceId

/-- The calculation of one device is also listed among the points of the device. -/
def singleOwner (calculation : TopologyCalculation) : List Item :=
  match calculation.owners with
  | [owner] => [organizes ns businessNs (ownerPath owner ++ "/Points") calculation.nodeId]
  | _ => []

def calculationItems (knownNodes : List String) (calculation : TopologyCalculation) : List Item :=
  let path := "Topology/Calculations/" ++ pathComponent calculation.nodeId
  addFolder ns path calculation.nodeId calculation.nodeId (some "Topology/Calculations") ::
    addString ns path "NodeId" calculation.nodeId path ::
    addStrings ns (path ++ "/DependencyNodeIds") "DependencyNodeIds"
      calculation.dependencyNodeIds path ::
    addFolder ns (path ++ "/Result") "Result" "Result" (some path) ::
    organizes ns businessNs (path ++ "/Result") calculation.nodeId ::
    addFolder ns (path ++ "/Dependencies") "Dependencies" "Dependencies" (some path) ::
    ((calculation.dependencyNodeIds.filter fun identifier => identifier ∈ knownNodes).map
      fun identifier => organizes ns businessNs (path ++ "/Dependencies") identifier) ++
    addFolder ns (path ++ "/Owners") "Owners" "Owners" (some path) ::
    (calculation.owners.map fun owner =>
      Item.reference ⟨ns, path ++ "/Owners"⟩ ⟨ns, ownerPath owner⟩) ++
    singleOwner ns businessNs calculation

def topologyItems (manifest : TopologyManifest) (manifestJson : String) : List Item :=
  addFolder ns "Topology" "Topology" "Topology" none ::
    addScalar ns "Topology/Manifest" "Manifest" (.string manifestJson) "Topology" ::
    addScalar ns "Topology/SchemaVersion" "SchemaVersion" (.uint32 manifest.schemaVersion)
      "Topology" ::
    addFolder ns "Topology/Ports" "Ports" "Ports" (some "Topology") ::
    manifest.ports.flatMap (portItems ns businessNs) ++
    addFolder ns "Topology/Calculations" "Calculations" "Calculations" (some "Topology") ::
    manifest.calculations.flatMap (calculationItems ns businessNs manifest.dataNodeIds)

def createTopologyNodes (space : AddressSpace) (manifest : TopologyManifest)
    (manifestJson : String) : Except String AddressSpace :=
  (topologyItems ns businessNs manifest manifestJson).foldlM Item.add space

end

/-! ## Coding -/

theorem hexTable_inj {m n : Nat} (hm : m < 16) (hn : n < 16)
    (h : hexTable.getD m '0' = hexTable.getD n '0') : m = n := by
  have hall : ∀ m < 16, ∀ n < 16, hexTable.getD m '0' = hexTable.getD n '0' → m = n := by decide
  exact hall m hm n hn h

theorem unreserved_lt {b : UInt8} (h : isUnreserved b = true) : b.toNat < 128 := by
  simp only [isUnreserved, Bool.or_eq_true, Bool.and_eq_true, decide_eq_true_eq, beq_iff_eq,
    UInt8.le_iff_toNat_le, ← UInt8.toNat_inj, UInt8.reduceToNat] at h
  omega

theorem charOf_toNat {n : Nat} (h : n < 128) : (Char.ofNat n).toNat = n := by
  have hall : ∀ n < 128, (Char.ofNat n).toNat = n := by decide
  exact hall n h

/-- Letters, digits and the four marks. -/
def isUnreservedChar (c : Char) : Bool := c.isAlphanum || c ∈ ['-', '_', '.', '~']

theorem unreserved_char {b : UInt8} (h : isUnreserved b = true) :
    isUnreservedChar (Char.ofNat b.toNat) = true := by
  have hall : ∀ n < 128, isUnreserved (UInt8.ofNat n) = true →
      isUnreservedChar (Char.ofNat n) = true := by decide +kernel
  exact hall b.toNat (unreserved_lt h) (by rwa [UInt8.ofNat_toNat])

/-- A triplet, with the digits in capitals. -/
def isTriplet : List Char → Bool
  | ['%', high, low] => high ∈ hexTable && low ∈ hexTable
  | _ => false

theorem pathByte_shape (b : UInt8) :
    (∃ c, pathByte b = [c] ∧ isUnreservedChar c = true) ∨ isTriplet (pathByte b) = true := by
  rw [pathByte]
  split_ifs with h
  · exact Or.inl ⟨_, rfl, unreserved_char h⟩
  · have hmem : ∀ n < 16, hexTable.getD n '0' ∈ hexTable := by decide
    have hhigh := hmem (b.toNat / 16) (by have := b.toNat_lt; omega)
    have hlow := hmem (b.toNat % 16) (by omega)
    exact Or.inr (by rw [isTriplet, decide_eq_true hhigh, decide_eq_true hlow]; rfl)

theorem code_pathByte : Code pathByte where
  nonempty := by
    intro b
    rw [pathByte]
    split_ifs <;> exact List.cons_ne_nil _ _
  read := by
    intro a b r s h
    have hmark : ∀ c : UInt8, isUnreserved c = true → Char.ofNat c.toNat ≠ '%' := by
      intro c hc heq
      have := unreserved_char hc
      rw [heq] at this
      exact absurd this (by decide)
    rw [pathByte, pathByte] at h
    split_ifs at h with ha hb hb
    · have hchar := congrArg Char.toNat (List.cons.inj h).1
      rw [charOf_toNat (unreserved_lt ha), charOf_toNat (unreserved_lt hb)] at hchar
      exact UInt8.toNat_inj.mp hchar
    · exact absurd (List.cons.inj h).1 (hmark a ha)
    · exact absurd (List.cons.inj h).1.symm (hmark b hb)
    · obtain ⟨-, htail⟩ := List.cons.inj h
      obtain ⟨hhigh, htail⟩ := List.cons.inj htail
      have hlow := (List.cons.inj htail).1
      have ha := a.toNat_lt
      have hb := b.toNat_lt
      have hdiv := hexTable_inj (by omega) (by omega) hhigh
      have hmod := hexTable_inj (by omega) (by omega) hlow
      apply UInt8.toNat_inj.mp
      omega

theorem pathComponent_inj {a b : String} (h : pathComponent a = pathComponent b) : a = b := by
  have hbytes := code_pathByte.flatMap_inj (String.ofList_injective h)
  exact String.toByteArray_inj.mp (ByteArray.ext (Array.toList_inj.mp hbytes))

theorem pathComponent_clean (value : String) : '/' ∉ (pathComponent value).toList := by
  rw [pathComponent, String.toList_ofList, List.mem_flatMap]
  rintro ⟨b, -, hb⟩
  rcases pathByte_shape b with ⟨c, hshape, hc⟩ | hshape
  · rw [hshape, List.mem_singleton] at hb
    rw [← hb] at hc
    exact absurd hc (by decide)
  · have htriplet : ∀ t, isTriplet t = true → '/' ∉ t := by
      intro t ht
      unfold isTriplet at ht
      split at ht
      · rename_i high low
        rw [Bool.and_eq_true, decide_eq_true_eq, decide_eq_true_eq] at ht
        have hslash : '/' ∉ hexTable := by decide
        intro hmem
        rw [List.mem_cons, List.mem_cons, List.mem_singleton] at hmem
        rcases hmem with hmem | rfl | rfl
        · exact absurd hmem (by decide)
        · exact hslash ht.1
        · exact hslash ht.2
      · cases ht
    exact htriplet _ hshape hb

/-! ## Identifiers -/

def Item.identifier : Item → Option String
  | .node n => some n.id.identifier
  | .reference _ _ => none

def identifiers (items : List Item) : List String := items.filterMap Item.identifier

theorem identifiers_append (items items' : List Item) :
    identifiers (items ++ items') = identifiers items ++ identifiers items' :=
  List.filterMap_append

theorem identifiers_node (n : Node) (items : List Item) :
    identifiers (.node n :: items) = n.id.identifier :: identifiers items := rfl

theorem identifiers_reference (source target : NodeId) (items : List Item) :
    identifiers (.reference source target :: items) = identifiers items := rfl

theorem identifiers_references {α : Type} (l : List α) (source target : α → NodeId) :
    identifiers (l.map fun a => Item.reference (source a) (target a)) = [] := by
  rw [identifiers, List.filterMap_map]
  exact List.filterMap_eq_nil_iff.mpr fun _ _ => rfl

theorem identifiers_nodes {α : Type} (l : List α) (f : α → Node) :
    identifiers (l.map fun a => Item.node (f a)) = l.map fun a => (f a).id.identifier := by
  rw [identifiers, List.filterMap_map]
  exact congrFun List.filterMap_eq_map l

theorem identifiers_flatMap {α : Type} (l : List α) (f : α → List Item) :
    identifiers (l.flatMap f) = l.flatMap fun a => identifiers (f a) := List.filterMap_flatMap

/-- The names below a device. -/
def deviceNodeNames : List String :=
  ["DeviceId", "Name", "KksPrefix", "DeviceAddress"] ++ stationVersionValues.map (·.1) ++ ["Points"]

def deviceBelow : List (List String) := [] :: deviceNodeNames.map fun name => [name]

def portNodeNames : List String :=
  ["PortId", "PortName", "SendNodeId", "SendMethodId", "SendMethodObjectId", "Commands", "Devices"]

def portBelow (port : TopologyPort) : List (List String) :=
  ([] :: portNodeNames.map fun name => [name]) ++
    branches "Devices" (·.deviceId) (fun _ => deviceBelow) port.devices

def calculationNodeNames : List String :=
  ["NodeId", "DependencyNodeIds", "Result", "Dependencies", "Owners"]

def calculationBelow : List (List String) := [] :: calculationNodeNames.map fun name => [name]

/-- The paths of all nodes below the root. -/
def topologyPaths (manifest : TopologyManifest) : List (List String) :=
  [[], ["Manifest"], ["SchemaVersion"], ["Ports"]] ++
    branches "Ports" (fun port => pathComponent port.portId) portBelow manifest.ports ++
    ["Calculations"] ::
      branches "Calculations" (fun calculation => pathComponent calculation.nodeId)
        (fun _ => calculationBelow) manifest.calculations

theorem join_name {path : List String} (h : path ≠ []) (name : String) :
    join '/' path ++ "/" ++ name = join '/' (path ++ [name]) := by
  rw [join_append '/' h (List.cons_ne_nil _ _)]
  rfl

theorem join_names (path : List String) (h : path ≠ []) (names : List String) :
    (names.map fun name => join '/' path ++ "/" ++ name) =
      (names.map fun name => [name]).map fun below => join '/' (path ++ below) := by
  rw [List.map_map]
  exact List.map_congr_left fun name _ => join_name h name

theorem append_literal (literal name : String) (h : literal = "/" ++ name) (path : String) :
    path ++ literal = path ++ "/" ++ name := by
  rw [h, String.append_assoc]

theorem join_segment (literal fixed : String) (h : literal = "/" ++ fixed ++ "/")
    {path : List String} (hpath : path ≠ []) (name : String) :
    join '/' path ++ literal ++ name = join '/' (path ++ [fixed, name]) := by
  have hassoc : join '/' path ++ literal ++ name =
      join '/' path ++ "/" ++ fixed ++ "/" ++ name := by
    rw [h, ← String.append_assoc, ← String.append_assoc]
  rw [hassoc, join_name hpath, join_name (by simp), List.append_assoc]
  rfl

variable {ns businessNs : UInt16}

theorem identifiers_deviceItems {path : List String} (h : path ≠ []) (device : TopologyDevice) :
    identifiers (deviceItems ns businessNs (join '/' path) device) =
      deviceBelow.map fun below => join '/' (path ++ "Devices" :: device.deviceId :: below) := by
  have hpath := join_segment "/Devices/" "Devices" rfl h device.deviceId
  have hnames := join_names (path ++ ["Devices", device.deviceId]) (by simp) deviceNodeNames
  simp only [List.append_assoc, List.cons_append, List.nil_append] at hnames
  rw [deviceBelow, List.map_cons, ← hnames]
  simp only [deviceItems, hpath, addStationVersionNodes, organizes, addFolder, addString, addScalar,
    identifiers_append, identifiers_node, identifiers_nodes, identifiers_references, List.map_cons,
    List.map_nil, append_literal "/DeviceAddress" "DeviceAddress" rfl,
    append_literal "/Points" "Points" rfl]
  rfl

theorem identifiers_portItems (port : TopologyPort) :
    identifiers (portItems ns businessNs port) =
      (portBelow port).map fun below =>
        join '/' ("Topology" :: "Ports" :: pathComponent port.portId :: below) := by
  have hpath : portPath port.portId = join '/' ["Topology", "Ports", pathComponent port.portId] :=
    join_segment "/Ports/" "Ports" rfl (List.cons_ne_nil "Topology" []) (pathComponent port.portId)
  have hnames := join_names ["Topology", "Ports", pathComponent port.portId] (by simp)
    portNodeNames
  have hdevices : ∀ device, identifiers (deviceItems ns businessNs
        (join '/' ["Topology", "Ports", pathComponent port.portId]) device) =
      deviceBelow.map fun below => join '/' ("Topology" :: "Ports" :: pathComponent port.portId ::
        "Devices" :: device.deviceId :: below) :=
    fun device => identifiers_deviceItems (by simp) device
  simp only [List.cons_append, List.nil_append] at hnames
  rw [portBelow, List.map_append, List.map_cons, ← hnames, branches, List.map_flatMap]
  simp only [List.map_map, Function.comp_def]
  simp only [portItems, hpath, hdevices, organizes, addFolder, addString, addScalar,
    identifiers_append, identifiers_node, identifiers_reference, identifiers_flatMap,
    List.map_cons, List.map_nil, append_literal "/Commands" "Commands" rfl,
    append_literal "/Devices" "Devices" rfl]
  rfl

theorem identifiers_singleOwner (calculation : TopologyCalculation) :
    identifiers (singleOwner ns businessNs calculation) = [] := by
  unfold singleOwner
  split <;> rfl

theorem identifiers_calculationItems (knownNodes : List String)
    (calculation : TopologyCalculation) :
    identifiers (calculationItems ns businessNs knownNodes calculation) =
      calculationBelow.map fun below =>
        join '/' ("Topology" :: "Calculations" :: pathComponent calculation.nodeId :: below) := by
  have hpath : "Topology/Calculations/" ++ pathComponent calculation.nodeId =
      join '/' ["Topology", "Calculations", pathComponent calculation.nodeId] :=
    join_segment "/Calculations/" "Calculations" rfl (List.cons_ne_nil "Topology" [])
      (pathComponent calculation.nodeId)
  have hnames := join_names ["Topology", "Calculations", pathComponent calculation.nodeId]
    (by simp) calculationNodeNames
  simp only [List.cons_append, List.nil_append] at hnames
  rw [calculationBelow, List.map_cons, ← hnames]
  simp only [calculationItems, hpath, organizes, addFolder, addString, addStrings, addScalar,
    identifiers_append, identifiers_node, identifiers_reference, identifiers_references,
    identifiers_singleOwner, append_literal "/DependencyNodeIds" "DependencyNodeIds" rfl,
    append_literal "/Result" "Result" rfl, append_literal "/Dependencies" "Dependencies" rfl,
    append_literal "/Owners" "Owners" rfl]
  rfl

theorem identifiers_topologyItems (manifest : TopologyManifest) (manifestJson : String) :
    identifiers (topologyItems ns businessNs manifest manifestJson) =
      (topologyPaths manifest).map fun path => join '/' ("Topology" :: path) := by
  simp only [topologyItems, addFolder, addScalar, identifiers_append, identifiers_node,
    identifiers_flatMap, identifiers_portItems, identifiers_calculationItems, topologyPaths,
    List.map_append, List.map_cons, List.map_nil, branches, List.map_flatMap, List.map_map,
    Function.comp_def]
  rfl

/-! ## Distinct paths -/

/-- What tells ports, devices and calculations apart; devices have decimal numbers. -/
structure Distinct (manifest : TopologyManifest) : Prop where
  ports : (manifest.ports.map (·.portId)).Nodup
  devices : ∀ port ∈ manifest.ports, (port.devices.map (·.deviceId)).Nodup
  decimal : ∀ port ∈ manifest.ports, ∀ device ∈ port.devices,
    ∀ c ∈ device.deviceId.toList, c.isDigit = true
  calculations : (manifest.calculations.map (·.nodeId)).Nodup

theorem nodup_encoded {α : Type} {name : α → String} {l : List α} (h : (l.map name).Nodup) :
    (l.map fun a => pathComponent (name a)).Nodup := by
  rw [← Function.comp_def, ← List.map_map]
  exact h.map fun _ _ => pathComponent_inj

/-- Names of their own, and branches below other names. -/
theorem nodup_portBelow {port : TopologyPort} (h : (port.devices.map (·.deviceId)).Nodup) :
    (portBelow port).Nodup := by
  rw [portBelow, List.nodup_append]
  refine ⟨by decide, nodup_branches h fun _ _ => by decide, ?_⟩
  rintro path hpath _ hbranch rfl
  obtain ⟨device, -, rest, -, rfl⟩ := mem_branches hbranch
  simp at hpath

theorem nodup_topologyPaths {manifest : TopologyManifest} (h : Distinct manifest) :
    (topologyPaths manifest).Nodup := by
  have hports : (branches "Ports" (fun port => pathComponent port.portId) portBelow
      manifest.ports).Nodup :=
    nodup_branches (nodup_encoded h.ports) fun port hport => nodup_portBelow (h.devices port hport)
  have hcalculations : (branches "Calculations"
      (fun calculation => pathComponent calculation.nodeId) (fun _ => calculationBelow)
      manifest.calculations).Nodup :=
    nodup_branches (nodup_encoded h.calculations) fun _ _ => by decide
  have hfront : ∀ path ∈ [[], ["Manifest"], ["SchemaVersion"], ["Ports"]] ++
      branches "Ports" (fun port => pathComponent port.portId) portBelow manifest.ports,
      path.head? ≠ some "Calculations" := by
    intro path hpath
    rcases List.mem_append.mp hpath with hfixed | hbranch
    · have hall : ∀ path ∈ ([[], ["Manifest"], ["SchemaVersion"], ["Ports"]] : List (List String)),
          path.head? ≠ some "Calculations" := by decide
      exact hall path hfixed
    · obtain ⟨port, -, rest, -, rfl⟩ := mem_branches hbranch
      simp
  rw [topologyPaths, List.nodup_append, List.nodup_append]
  refine ⟨⟨by decide, hports, ?_⟩, List.nodup_cons.mpr ⟨?_, hcalculations⟩, ?_⟩
  · rintro path hpath _ hbranch rfl
    obtain ⟨port, -, rest, -, rfl⟩ := mem_branches hbranch
    simp at hpath
  · intro hbranch
    obtain ⟨calculation, -, rest, -, hpath⟩ := mem_branches hbranch
    simp at hpath
  · rintro path hpath _ hback rfl
    apply hfront path hpath
    rcases List.mem_cons.mp hback with rfl | hbranch
    · rfl
    · obtain ⟨calculation, -, rest, -, rfl⟩ := mem_branches hbranch
      rfl

/-- No segment contains the separator. -/
theorem clean_branches {α : Type} {fixed : String} {name : α → String}
    {below : α → List (List String)} {l : List α} (hfixed : '/' ∉ fixed.toList)
    (hname : ∀ a ∈ l, '/' ∉ (name a).toList)
    (hbelow : ∀ a ∈ l, ∀ path ∈ below a, ∀ s ∈ path, '/' ∉ s.toList) :
    ∀ path ∈ branches fixed name below l, ∀ s ∈ path, '/' ∉ s.toList := by
  intro path hpath s hs
  obtain ⟨a, ha, rest, hrest, rfl⟩ := mem_branches hpath
  rcases List.mem_cons.mp hs with rfl | hs
  · exact hfixed
  · rcases List.mem_cons.mp hs with rfl | hs
    · exact hname a ha
    · exact hbelow a ha rest hrest s hs

theorem clean_portBelow {port : TopologyPort}
    (h : ∀ device ∈ port.devices, ∀ c ∈ device.deviceId.toList, c.isDigit = true) :
    ∀ path ∈ portBelow port, ∀ s ∈ path, '/' ∉ s.toList := by
  intro path hpath
  rw [portBelow, List.mem_append] at hpath
  rcases hpath with hnames | hbranch
  · have hall : ∀ path ∈ [] :: portNodeNames.map (fun name => [name]), ∀ s ∈ path,
        '/' ∉ s.toList := by decide +kernel
    exact hall path hnames
  · have hbelow : ∀ path ∈ deviceBelow, ∀ s ∈ path, '/' ∉ s.toList := by decide +kernel
    refine clean_branches (by decide) ?_ (fun _ _ => hbelow) path hbranch
    intro device hdevice hslash
    exact absurd (h device hdevice '/' hslash) (by decide)

theorem clean_topologyPaths {manifest : TopologyManifest} (h : Distinct manifest)
    {path : List String} (hpath : path ∈ topologyPaths manifest) :
    Clean '/' ("Topology" :: path) := by
  have hclean : ∀ s ∈ path, '/' ∉ s.toList := by
    rw [topologyPaths, List.mem_append, List.mem_append] at hpath
    rcases hpath with (hfixed | hbranch) | hback
    · have hall : ∀ path ∈ ([[], ["Manifest"], ["SchemaVersion"], ["Ports"]] : List (List String)),
          ∀ s ∈ path, '/' ∉ s.toList := by decide
      exact hall path hfixed
    · refine clean_branches ?_ ?_ ?_ path hbranch
      · decide
      · exact fun port _ => pathComponent_clean port.portId
      · exact fun port hport => clean_portBelow (h.decimal port hport)
    · rcases List.mem_cons.mp hback with rfl | hbranch
      · decide
      · have hbelow : ∀ path ∈ calculationBelow, ∀ s ∈ path, '/' ∉ s.toList := by decide
        refine clean_branches ?_ ?_ ?_ path hbranch
        · decide
        · exact fun calculation _ => pathComponent_clean calculation.nodeId
        · exact fun _ _ => hbelow
  refine ⟨List.cons_ne_nil _ _, ?_⟩
  intro s hs
  rcases List.mem_cons.mp hs with rfl | hs
  · decide
  · exact hclean s hs

theorem nodup_identifiers (ns businessNs : UInt16) {manifest : TopologyManifest}
    (h : Distinct manifest) (manifestJson : String) :
    (identifiers (topologyItems ns businessNs manifest manifestJson)).Nodup := by
  rw [identifiers_topologyItems]
  refine List.Nodup.map_on ?_ (nodup_topologyPaths h)
  intro p hp q hq hpq
  exact (List.cons.inj (join_inj (clean_topologyPaths h hp) (clean_topologyPaths h hq) hpq)).2

/-! ## Creation -/

/-- Nodes with identifiers of their own can all be inserted. -/
theorem foldlM_add {items : List Item} (space : AddressSpace)
    (h : (space.nodes.map (·.id.identifier) ++ identifiers items).Nodup) :
    ∃ space', items.foldlM Item.add space = .ok space' ∧
      space'.nodes.map (·.id.identifier) =
        space.nodes.map (·.id.identifier) ++ identifiers items := by
  induction items generalizing space with
  | nil => exact ⟨space, rfl, (List.append_nil _).symm⟩
  | cons item items ih =>
    cases item with
    | reference source target =>
      rw [identifiers_reference] at h ⊢
      obtain ⟨space', hrun, hnodes⟩ :=
        ih ⟨space.nodes, space.references ++ [(source, target)]⟩ h
      exact ⟨space', hrun, hnodes⟩
    | node n =>
      rw [identifiers_node] at h ⊢
      have hnew : n.id ∉ space.nodes.map (·.id) := by
        intro hmem
        obtain ⟨m, hm, hid⟩ := List.mem_map.mp hmem
        have hused : n.id.identifier ∈ space.nodes.map (·.id.identifier) :=
          List.mem_map.mpr ⟨m, hm, congrArg NodeId.identifier hid⟩
        exact (List.nodup_append.mp h).2.2 _ hused _ List.mem_cons_self rfl
      have hadd : Item.add space (.node n) = .ok ⟨space.nodes ++ [n], space.references⟩ := by
        rw [Item.add, if_neg hnew]
      have hsplit : (space.nodes ++ [n]).map (·.id.identifier) ++ identifiers items =
          space.nodes.map (·.id.identifier) ++ n.id.identifier :: identifiers items := by
        rw [List.map_append, List.append_assoc]
        rfl
      obtain ⟨space', hrun, hnodes⟩ :=
        ih ⟨space.nodes ++ [n], space.references⟩ (by rw [hsplit]; exact h)
      refine ⟨space', ?_, hnodes.trans hsplit⟩
      rw [List.foldlM_cons, hadd]
      exact hrun

/-- Coded names differ when the names do, and no two nodes share an identifier. -/
theorem node_identifiers_distinct :
    (∀ a b, pathComponent a = pathComponent b → a = b) ∧
    (∀ value, (∃ tokens : List (List Char), (pathComponent value).toList = tokens.flatten ∧
      ∀ t ∈ tokens, (∃ c, t = [c] ∧ isUnreservedChar c = true) ∨ isTriplet t = true) ∧
      '/' ∉ (pathComponent value).toList) ∧
    ∀ ns businessNs manifest manifestJson, Distinct manifest →
      (identifiers (topologyItems ns businessNs manifest manifestJson)).Nodup ∧
      ∃ space, createTopologyNodes ns businessNs .empty manifest manifestJson = .ok space ∧
        space.nodes.map (·.id.identifier) =
          identifiers (topologyItems ns businessNs manifest manifestJson) := by
  refine ⟨fun _ _ => pathComponent_inj, fun value => ⟨?_, pathComponent_clean value⟩, ?_⟩
  · refine ⟨value.toByteArray.data.toList.map pathByte, ?_, ?_⟩
    · rw [pathComponent, String.toList_ofList, List.flatMap_def]
    · intro t ht
      obtain ⟨b, -, rfl⟩ := List.mem_map.mp ht
      exact pathByte_shape b
  · intro ns businessNs manifest manifestJson hdistinct
    have hnodup := nodup_identifiers ns businessNs hdistinct manifestJson
    exact ⟨hnodup, foldlM_add .empty hnodup⟩

/-- A port whose name is a path, another one whose name is the code of the first, and a calculation
with the name of a folder. -/
def sampleManifest : TopologyManifest where
  schemaVersion := 1
  ports := [⟨"/dev/ttyS0", "ttyS0", "ttyS0_Send", "ttyS0_SendCommand",
      [⟨"0", 0, "设备 0", "A", ["A1"]⟩, ⟨"255", 255, "设备 255", "B", ["B1"]⟩]⟩,
    ⟨"%2Fdev%2FttyS0", "%2Fdev%2FttyS0", "x_Send", "x_SendCommand", []⟩]
  calculations := [⟨"Result", ["A1", "B1"], [⟨"/dev/ttyS0", "0"⟩, ⟨"/dev/ttyS0", "255"⟩]⟩]

theorem node_identifiers_distinct_sample :
    (identifiers (topologyItems 2 1 sampleManifest "")).Nodup := by
  refine (node_identifiers_distinct.2.2 2 1 sampleManifest ""
    ⟨by decide, by decide, ?_, by decide⟩).1
  simp [sampleManifest]

end RcdServer.Server
