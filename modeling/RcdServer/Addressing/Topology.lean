import RcdServer.Catalog.Union
import RcdServer.Routes.Configuration
import RcdServer.Lib.Run

/-!
# Topologies

`domain/topology.go`. The topology of a source lists its ports with their devices.
`assignCatalogGroups` accepts it only if every port has command nodes of its own, named after the
port, and every device an address of its own on its port, and notes at each node where it belongs.
-/
namespace RcdServer.Addressing

open Catalog (CatalogNode CatalogState hasSuffix validCommandMethod validCommandVariable)
open Lib.Run (foldlM_history_nil)
open Lib.Text
open Routes (GroupBinding Source)

/-! ## Errors -/

inductive CommandError where
  | field (field message : String)
  | notFound
  | nodeNotConfigured
  | nodeRetired
  | sourceNotSelectable
  | sessionClosed
  /-- `fmt.Errorf` with the cause under `%w`. -/
  | wrapped (text : String) (cause : CommandError)
  deriving DecidableEq

/-! ## Catalogs -/

structure NodeKey where
  namespaceURI : String
  identifier : String
  deriving DecidableEq

/-- A catalog node with its namespace and its place in the topology. -/
structure Node extends CatalogNode where
  namespaceURI : String
  portID : String
  deviceID : String
  deriving DecidableEq

def Node.key (n : Node) : NodeKey := ⟨n.namespaceURI, n.identifier⟩

structure TopologyOwner where
  portID : String
  deviceID : String
  deriving DecidableEq

structure TopologyDevice where
  deviceID : String
  deviceAddress : UInt32
  nodeIDs : List String
  deriving DecidableEq

structure TopologyPort where
  portID : String
  portName : String
  sendNodeID : String
  sendMethodID : String
  devices : List TopologyDevice
  deriving DecidableEq

structure TopologyCalculation where
  nodeID : String
  owners : List TopologyOwner
  deriving DecidableEq

structure SourceTopology where
  schemaVersion : Int
  ports : List TopologyPort
  calculations : List TopologyCalculation
  deriving DecidableEq

structure SourceCatalog where
  sourceID : String
  groupID : String
  state : CatalogState
  nodes : List Node
  topology : Option SourceTopology
  deriving DecidableEq

/-- A device that is not bound belongs to the group of its source. -/
def groupForDevice (source : Source) (portID deviceID : String) : String :=
  match source.groupBindings.find? fun b => b.portID == portID && b.deviceID == deviceID with
  | some b => b.groupID
  | none => source.groupID

/-! ## Assignment -/

/-- What the loops over a topology have noted: the nodes, and what has been seen already. -/
structure Assignment where
  nodes : List Node
  owners : List String
  devices : List TopologyOwner
  ports : List String
  commands : List String

def findNode (nodes : List Node) (identifier : String) : Option Node :=
  nodes.find? (·.identifier == identifier)

/-- `catalog.Nodes[i] = …`; the identifiers are distinct where this is used. -/
def setNode (nodes : List Node) (identifier : String) (f : Node → Node) : List Node :=
  nodes.map fun n => if n.identifier = identifier then f n else n

def isCommand (topology : Option SourceTopology) (n : Node) : Bool :=
  decide (n.nodeClass = .method) ||
    (topology.isNone && hasSuffix n.identifier "_Send" && decide (n.nodeClass = .variable) &&
      validCommandVariable n.toCatalogNode)

def annotate (source : Source) (topology : Option SourceTopology) (n : Node) : Node :=
  if n.retired then n
  else
    { n with
      groupID := source.groupID
      portID := ""
      deviceID := ""
      kind := if isCommand topology n then "command" else "point" }

def assignCommand (port : TopologyPort) (s : Assignment) (commandID : String) :
    Except CommandError Assignment :=
  match findNode s.nodes commandID with
  | none => .error (.field "topology.commands" ("missing command " ++ commandID))
  | some node =>
    if commandID ∈ s.commands then
      .error (.field "topology.commands" "duplicate command ownership")
    else if commandID = port.sendNodeID ∧
        (node.nodeClass ≠ .variable ∨ !validCommandVariable node.toCatalogNode) then
      .error (.field "topology.commands" "Send must be writable scalar String")
    else if commandID = port.sendMethodID ∧
        (node.nodeClass ≠ .method ∨ !validCommandMethod node.toCatalogNode) then
      .error (.field "topology.commands" "invalid SendCommand signature")
    else
      .ok { s with
        commands := commandID :: s.commands
        nodes := setNode s.nodes commandID fun n =>
          { n with portID := port.portID, kind := "command" } }

/-- Neither a device point nor a calculation may be written to. -/
def readOnly (node : Node) : Bool :=
  decide (node.nodeClass = .variable) && !node.writable && node.kind != "command"

def assignPoint (source : Source) (port : TopologyPort) (device : TopologyDevice) (s : Assignment)
    (identifier : String) : Except CommandError Assignment :=
  if identifier ∈ s.owners then .error (.field "topology.node_ids" "duplicate point ownership")
  else
    match findNode s.nodes identifier with
    | none => .error (.field "topology.node_ids" ("unknown point " ++ identifier))
    | some node =>
      if !readOnly node then
        .error (.field "topology.node_ids" "device points must be read-only variables")
      else
        .ok { s with
          owners := identifier :: s.owners
          nodes := setNode s.nodes identifier fun n =>
            { n with
              portID := port.portID
              deviceID := device.deviceID
              groupID := groupForDevice source port.portID device.deviceID } }

def assignDevice (source : Source) (port : TopologyPort) (s : Assignment)
    (device : TopologyDevice) : Except CommandError Assignment :=
  let owner : TopologyOwner := ⟨port.portID, device.deviceID⟩
  if device.deviceID ≠ toString device.deviceAddress.toNat ∨ 255 < device.deviceAddress.toNat then
    .error (.field "topology.device" "device ID must match byte-sized address")
  else if owner ∈ s.devices then .error (.field "topology.devices" "duplicate device")
  else device.nodeIDs.foldlM (assignPoint source port device) { s with devices := owner :: s.devices }

def assignPort (source : Source) (s : Assignment) (port : TopologyPort) :
    Except CommandError Assignment :=
  if trim port.portID = "" ∨ port.portName = "" ∨ port.sendNodeID ≠ port.portName ++ "_Send" ∨
      port.sendMethodID ≠ port.portName ++ "_SendCommand" then
    .error (.field "topology.ports" "port and matching command node identifiers are required")
  else if port.portID ∈ s.ports then .error (.field "topology.ports" "duplicate port")
  else do
    let s ← [port.sendNodeID, port.sendMethodID].foldlM (assignCommand port)
      { s with ports := port.portID :: s.ports }
    port.devices.foldlM (assignDevice source port) s

def knownOwners (devices : List TopologyOwner) : List TopologyOwner → List TopologyOwner → Bool
  | _, [] => true
  | seen, owner :: owners =>
    decide (owner ∈ devices) && !decide (owner ∈ seen) && knownOwners devices (owner :: seen) owners

def assignCalculation (source : Source) (s : Assignment) (calculation : TopologyCalculation) :
    Except CommandError Assignment :=
  match findNode s.nodes calculation.nodeID with
  | none => .error (.field "topology.calculations" ("unknown calculation " ++ calculation.nodeID))
  | some node =>
    if !readOnly node then
      .error (.field "topology.calculations" "calculation must be a read-only variable")
    else if calculation.nodeID ∈ s.owners then
      .error (.field "topology.calculations" "duplicate calculation ownership")
    else if !knownOwners s.devices [] calculation.owners then
      .error (.field "topology.calculations.owners" "unknown or duplicate device owner")
    else
      .ok { s with
        owners := calculation.nodeID :: s.owners
        nodes := setNode s.nodes calculation.nodeID fun n =>
          match calculation.owners with
          | [owner] =>
            { n with
              kind := "calculation"
              portID := owner.portID
              deviceID := owner.deviceID
              groupID := groupForDevice source owner.portID owner.deviceID }
          | _ => { n with kind := "calculation" } }

/-- The first node that is neither retired nor listed in the topology. -/
def unowned (s : Assignment) : Option Node :=
  s.nodes.find? fun n =>
    !n.retired && !decide (n.identifier ∈ s.owners) && !decide (n.identifier ∈ s.commands)

def assignTopology (source : Source) (nodes : List Node) (t : SourceTopology) :
    Except CommandError (List Node) :=
  if t.schemaVersion ≠ 1 then .error (.field "topology.schema_version" "unsupported version")
  else do
    let s ← t.ports.foldlM (assignPort source) ⟨nodes, [], [], [], []⟩
    let s ← t.calculations.foldlM (assignCalculation source) s
    match unowned s with
    | some n =>
      .error (.field "topology.nodes" ("business node has no topology ownership: " ++ n.identifier))
    | none => .ok s.nodes

def assignCatalogGroups (source : Source) (catalog : SourceCatalog) :
    Except CommandError SourceCatalog :=
  if ¬ (catalog.nodes.map (·.identifier)).Nodup then
    .error (.field "topology.nodes" "duplicate business node")
  else
    let nodes := catalog.nodes.map (annotate source catalog.topology)
    match catalog.topology with
    | none => .ok { catalog with groupID := source.groupID, nodes := nodes }
    | some t =>
      match assignTopology source nodes t with
      | .error e => .error e
      | .ok nodes => .ok { catalog with groupID := source.groupID, nodes := nodes }

/-! ## Accepted topologies -/

def TopologyPort.commandIDs (p : TopologyPort) : List String := [p.sendNodeID, p.sendMethodID]

def TopologyPort.owners (p : TopologyPort) : List TopologyOwner :=
  p.devices.map fun d => ⟨p.portID, d.deviceID⟩

/-- The identifier of a device is its address, which fits into a byte. -/
def TopologyDevice.Addressed (d : TopologyDevice) : Prop :=
  d.deviceID = toString d.deviceAddress.toNat ∧ d.deviceAddress.toNat ≤ 255

/-- Ports, command nodes and devices are told apart by their names. -/
structure WellFormed (ports : List TopologyPort) : Prop where
  named : ∀ p ∈ ports, p.sendNodeID = p.portName ++ "_Send" ∧
    p.sendMethodID = p.portName ++ "_SendCommand"
  addressed : ∀ p ∈ ports, ∀ d ∈ p.devices, d.Addressed
  ports_nodup : (ports.map (·.portID)).Nodup
  commands_nodup : (ports.flatMap (·.commandIDs)).Nodup
  devices_nodup : (ports.flatMap (·.owners)).Nodup

/-- What has been seen after some ports. -/
structure Assigned (ports : List TopologyPort) (s : Assignment) : Prop where
  wellFormed : WellFormed ports
  seenPorts : ∀ x, x ∈ s.ports ↔ x ∈ ports.map (·.portID)
  seenCommands : ∀ x, x ∈ s.commands ↔ x ∈ ports.flatMap (·.commandIDs)
  seenDevices : ∀ x, x ∈ s.devices ↔ x ∈ ports.flatMap (·.owners)

theorem assignCommand_ok {port : TopologyPort} {s s' : Assignment} {commandID : String}
    (h : assignCommand port s commandID = .ok s') :
    commandID ∉ s.commands ∧ s'.commands = commandID :: s.commands ∧ s'.ports = s.ports ∧
      s'.devices = s.devices := by
  unfold assignCommand at h
  split at h
  · cases h
  · split_ifs at h with hseen
    obtain rfl := Except.ok.inj h
    exact ⟨hseen, rfl, rfl, rfl⟩

/-- The two command nodes of a port have not been seen before. -/
theorem assignCommands_ok {port : TopologyPort} {s s' : Assignment}
    (h : port.commandIDs.foldlM (assignCommand port) s = .ok s') :
    port.commandIDs.Nodup ∧ (∀ x ∈ port.commandIDs, x ∉ s.commands) ∧
      (∀ x, x ∈ s'.commands ↔ x ∈ s.commands ∨ x ∈ port.commandIDs) ∧ s'.ports = s.ports ∧
      s'.devices = s.devices := by
  refine foldlM_history_nil (fun done t => done.Nodup ∧ (∀ x ∈ done, x ∉ s.commands) ∧
    (∀ x, x ∈ t.commands ↔ x ∈ s.commands ∨ x ∈ done) ∧ t.ports = s.ports ∧ t.devices = s.devices)
    ?_ ⟨List.nodup_nil, by simp, by simp, rfl, rfl⟩ h
  rintro done x t t' ⟨hnodup, hfresh, hmem, hports, hdevices⟩ hstep
  obtain ⟨hnew, hcommands, hports', hdevices'⟩ := assignCommand_ok hstep
  rw [hmem, not_or] at hnew
  refine ⟨?_, ?_, ?_, hports'.trans hports, hdevices'.trans hdevices⟩
  · exact hnodup.append (List.nodup_singleton x) (List.disjoint_singleton.mpr hnew.2)
  · intro y hy
    rcases List.mem_append.mp hy with hy | hy
    · exact hfresh y hy
    · rw [List.mem_singleton.mp hy]
      exact hnew.1
  · intro y
    rw [hcommands, List.mem_cons, hmem, List.mem_append, List.mem_singleton]
    tauto

theorem assignPoint_ok {source : Source} {port : TopologyPort} {device : TopologyDevice}
    {s s' : Assignment} {identifier : String}
    (h : assignPoint source port device s identifier = .ok s') :
    s'.commands = s.commands ∧ s'.ports = s.ports ∧ s'.devices = s.devices := by
  unfold assignPoint at h
  split_ifs at h
  split at h
  · cases h
  · split_ifs at h
    obtain rfl := Except.ok.inj h
    exact ⟨rfl, rfl, rfl⟩

theorem assignDevice_ok {source : Source} {port : TopologyPort} {s s' : Assignment}
    {device : TopologyDevice} (h : assignDevice source port s device = .ok s') :
    device.Addressed ∧ (⟨port.portID, device.deviceID⟩ : TopologyOwner) ∉ s.devices ∧
      s'.devices = ⟨port.portID, device.deviceID⟩ :: s.devices ∧ s'.commands = s.commands ∧
      s'.ports = s.ports := by
  simp only [assignDevice] at h
  split_ifs at h with hname hseen
  rw [not_or, not_not, Nat.not_lt] at hname
  have hpoints : s'.commands = s.commands ∧ s'.ports = s.ports ∧
      s'.devices = ⟨port.portID, device.deviceID⟩ :: s.devices := by
    refine foldlM_history_nil (fun _ t => t.commands = s.commands ∧ t.ports = s.ports ∧
      t.devices = ⟨port.portID, device.deviceID⟩ :: s.devices) ?_ ⟨rfl, rfl, rfl⟩ h
    intro _ x t t' ht hstep
    obtain ⟨hcommands, hports, hdevices⟩ := assignPoint_ok hstep
    exact ⟨hcommands.trans ht.1, hports.trans ht.2.1, hdevices.trans ht.2.2⟩
  exact ⟨hname, hseen, hpoints.2.2, hpoints.1, hpoints.2.1⟩

/-- The devices of a port have not been seen before. -/
theorem assignDevices_ok {source : Source} {port : TopologyPort} {s s' : Assignment}
    (h : port.devices.foldlM (assignDevice source port) s = .ok s') :
    (∀ d ∈ port.devices, d.Addressed) ∧ port.owners.Nodup ∧ (∀ x ∈ port.owners, x ∉ s.devices) ∧
      (∀ x, x ∈ s'.devices ↔ x ∈ s.devices ∨ x ∈ port.owners) ∧ s'.commands = s.commands ∧
      s'.ports = s.ports := by
  let owner : TopologyDevice → TopologyOwner := fun d => ⟨port.portID, d.deviceID⟩
  refine foldlM_history_nil (fun (done : List TopologyDevice) t => (∀ d ∈ done, d.Addressed) ∧
    (done.map owner).Nodup ∧ (∀ x ∈ done.map owner, x ∉ s.devices) ∧
    (∀ x, x ∈ t.devices ↔ x ∈ s.devices ∨ x ∈ done.map owner) ∧ t.commands = s.commands ∧
    t.ports = s.ports) ?_ ⟨by simp, List.nodup_nil, by simp, by simp, rfl, rfl⟩ h
  rintro done d t t' ⟨haddressed, hnodup, hfresh, hmem, hcommands, hports⟩ hstep
  obtain ⟨hd, hnew, hdevices, hcommands', hports'⟩ := assignDevice_ok hstep
  rw [hmem, not_or] at hnew
  refine ⟨?_, ?_, ?_, ?_, hcommands'.trans hcommands, hports'.trans hports⟩
  · intro d' hd'
    rcases List.mem_append.mp hd' with hd' | hd'
    · exact haddressed d' hd'
    · rw [List.mem_singleton.mp hd']
      exact hd
  · rw [List.map_append]
    exact hnodup.append (List.nodup_singleton _) (List.disjoint_singleton.mpr hnew.2)
  · intro x hx
    rw [List.map_append] at hx
    rcases List.mem_append.mp hx with hx | hx
    · exact hfresh x hx
    · rw [List.mem_singleton.mp hx]
      exact hnew.1
  · intro x
    rw [hdevices, List.mem_cons, hmem, List.map_append, List.mem_append]
    have hlast : x ∈ [d].map owner ↔ x = owner d := List.mem_singleton
    rw [hlast]
    tauto

theorem Assigned.assignPort {source : Source} {ports : List TopologyPort} {s s' : Assignment}
    {port : TopologyPort} (h : Assigned ports s) (hstep : assignPort source s port = .ok s') :
    Assigned (ports ++ [port]) s' := by
  unfold Addressing.assignPort at hstep
  split_ifs at hstep with hnames hseen
  simp only [not_or, not_not] at hnames
  cases hcommands : [port.sendNodeID, port.sendMethodID].foldlM (assignCommand port)
      { s with ports := port.portID :: s.ports } with
  | error e =>
    rw [hcommands] at hstep
    cases hstep
  | ok t =>
    rw [hcommands] at hstep
    obtain ⟨hcnodup, hcnew, hcmem, htports, htdevices⟩ := assignCommands_ok hcommands
    obtain ⟨haddressed, hdnodup, hdnew, hdmem, hcommands', hports'⟩ := assignDevices_ok hstep
    have hwf := h.wellFormed
    refine ⟨⟨?_, ?_, ?_, ?_, ?_⟩, ?_, ?_, ?_⟩
    · intro p hp
      rcases List.mem_append.mp hp with hp | hp
      · exact hwf.named p hp
      · rw [List.mem_singleton.mp hp]
        exact ⟨hnames.2.2.1, hnames.2.2.2⟩
    · intro p hp
      rcases List.mem_append.mp hp with hp | hp
      · exact hwf.addressed p hp
      · rw [List.mem_singleton.mp hp]
        exact haddressed
    · rw [List.map_append]
      refine hwf.ports_nodup.append (List.nodup_singleton _) (List.disjoint_singleton.mpr ?_)
      exact fun hin => hseen ((h.seenPorts _).mpr hin)
    · rw [List.flatMap_append, List.flatMap_singleton]
      exact hwf.commands_nodup.append hcnodup fun x hx hx' => hcnew x hx' ((h.seenCommands x).mpr hx)
    · rw [List.flatMap_append, List.flatMap_singleton]
      refine hwf.devices_nodup.append hdnodup fun x hx hx' => hdnew x hx' ?_
      rw [htdevices]
      exact (h.seenDevices x).mpr hx
    · intro x
      rw [hports', htports, List.mem_cons, h.seenPorts, List.map_append, List.mem_append, or_comm]
      simp
    · intro x
      rw [hcommands', hcmem, List.flatMap_append, List.flatMap_singleton, List.mem_append]
      exact or_congr_left (h.seenCommands x)
    · intro x
      rw [hdmem, htdevices, h.seenDevices, List.flatMap_append, List.flatMap_singleton, List.mem_append]

theorem assigned_start (nodes : List Node) : Assigned [] ⟨nodes, [], [], [], []⟩ where
  wellFormed := ⟨by simp, by simp, List.nodup_nil, List.nodup_nil, List.nodup_nil⟩
  seenPorts := by simp
  seenCommands := by simp
  seenDevices := by simp

/-- An accepted catalog has a well-formed topology, if it has one. -/
theorem wellFormed_of_assigned {source : Source} {raw catalog : SourceCatalog}
    (h : assignCatalogGroups source raw = .ok catalog) {t : SourceTopology}
    (ht : catalog.topology = some t) : WellFormed t.ports := by
  simp only [assignCatalogGroups] at h
  split_ifs at h
  cases hraw : raw.topology with
  | none =>
    simp only [hraw] at h
    obtain rfl := Except.ok.inj h
    cases ht
  | some t' =>
    simp only [hraw] at h
    cases hnodes : assignTopology source (raw.nodes.map (annotate source (some t'))) t' with
    | error e =>
      rw [hnodes] at h
      cases h
    | ok nodes =>
      rw [hnodes] at h
      obtain rfl := Except.ok.inj h
      obtain rfl : t' = t := Option.some.inj ht
      unfold assignTopology at hnodes
      split_ifs at hnodes
      cases hports : t'.ports.foldlM (assignPort source)
          ⟨raw.nodes.map (annotate source (some t')), [], [], [], []⟩ with
      | error e =>
        rw [hports] at hnodes
        cases hnodes
      | ok s =>
        exact (foldlM_history_nil Assigned (fun _ _ _ _ hs hstep => hs.assignPort hstep)
          (assigned_start _) hports).wellFormed

end RcdServer.Addressing
