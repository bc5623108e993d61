import RcdServer.Addressing.Topology
import RcdServer.Opc.Sending
import RcdServer.Routes.Table

/-!
# Routes of commands

`resolveCommandRouteLocked` of `command_routing.go`. A command names a public node and carries the
address of its device as the first byte of its payload. The group is found in the topologies of all
sources, the port in that of the selected one. Where no source with bindings has the public node,
commands go to its port as they did before there were device groups.
-/
namespace RcdServer.Addressing

open Catalog (trimSuffix)
open Lib (Map)
open Lib.Text
open Routes (GroupRoute Session Source)
open Tracking (hexDigit)

/-! ## The address -/

/-- `hex.DecodeString` -/
def decodeString : List Char → Option (List UInt8)
  | [] => some []
  | [_] => none
  | a :: b :: rest => do
    let high ← hexDigit a
    let low ← hexDigit b
    let decoded ← decodeString rest
    return UInt8.ofNat (16 * high + low) :: decoded

def commandAddress (payload : String) : Except CommandError UInt32 :=
  match decodeString (payload.toList.filter fun c => !isWhiteSpace c) with
  | some (first :: _) => .ok first.toUInt32
  | _ =>
    .error (.field "HexData" "must be an even-length hexadecimal frame with a device address")

/-! ## The route -/

/-- `indexedPoint`, without the sources that have it. -/
structure IndexedPoint where
  groupID : String
  node : Node
  deriving DecidableEq

/-- The lookups of a `catalogIndex`, which files the nodes of a source under their identifiers. -/
structure CommandIndex where
  pointForNode : String → Option IndexedPoint
  sourceNode : String → String → Option Node
  filed : ∀ sourceID identifier node, sourceNode sourceID identifier = some node →
    node.identifier = identifier

/-- `PhysicalPort` is set by the caller. -/
structure CommandRoute where
  deviceRouted : Bool
  groupID : String
  sourceID : String
  port : String
  key : NodeKey
  sendKey : NodeKey
  deriving DecidableEq

/-- What the runtime holds while a route is resolved. -/
structure Gateway where
  session : Option Session
  sources : List Source
  catalogs : Map String SourceCatalog
  index : CommandIndex

namespace Gateway

variable (w : Gateway)

/-- A source without a catalog reads as one with no nodes and no topology. -/
def catalogOf (sourceID : String) : SourceCatalog :=
  (w.catalogs.lookup sourceID).getD ⟨"", "", .unset, [], none⟩

def commandPoint (session : Session) (identifier : String) : Except CommandError IndexedPoint :=
  match w.index.pointForNode identifier with
  | none => .error .notFound
  | some point =>
    if point.node.retired then .error .nodeRetired
    else
      match session.routes.lookup point.groupID with
      | none => .error .nodeNotConfigured
      | some route =>
        if route.sourceID = "" then .error .nodeNotConfigured
        else
          match w.index.sourceNode route.sourceID identifier with
          | none => .error .nodeNotConfigured
          | some sourceNode => if sourceNode.retired then .error .nodeRetired else .ok point

/-- The route of a command whose public node is in no topology with bindings. -/
def portRoute (session : Session) (identifier : String) : Except CommandError CommandRoute :=
  match w.commandPoint session identifier with
  | .error e => .error e
  | .ok point =>
    let port := trimSuffix (trimSuffix identifier "_SendCommand") "_Send"
    .ok
      { deviceRouted := false
        groupID := point.groupID
        sourceID := ((session.routes.lookup point.groupID).map (·.sourceID)).getD ""
        port := port
        key := point.node.key
        sendKey := ⟨point.node.namespaceURI, port ++ "_Send"⟩ }

end Gateway

def TopologyPort.carries (port : TopologyPort) (identifier : String) : Bool :=
  identifier == port.sendNodeID || identifier == port.sendMethodID

/-- The devices of all ports, in the order of the loops. -/
def SourceTopology.places (t : SourceTopology) : List (TopologyPort × TopologyDevice) :=
  t.ports.flatMap fun port => port.devices.map fun device => (port, device)

namespace Gateway

variable (w : Gateway)

/-- Some source with bindings has the public node as a command node. -/
def strict (identifier : String) : Bool :=
  w.sources.any fun source =>
    !source.groupBindings.isEmpty &&
      match (w.catalogOf source.id).topology with
      | none => (w.catalogOf source.id).nodes.any (·.identifier == identifier)
      | some t => t.ports.any (·.carries identifier)

/-- The keys of the map `groups`. -/
def publicGroups (identifier : String) (address : UInt32) : List String :=
  (w.sources.flatMap fun source =>
    match (w.catalogOf source.id).topology with
    | none => []
    | some t =>
      (t.places.filter fun place =>
        place.1.carries identifier && place.2.deviceAddress == address).map fun place =>
          groupForDevice source place.1.portID place.2.deviceID).dedup

def logicalGroup (identifier groupHint : String) (address : UInt32) : Except CommandError String :=
  if groupHint ≠ "" then .ok groupHint
  else
    match w.publicGroups identifier address with
    | [group] => .ok group
    | _ =>
      .error (.wrapped "public port and address do not identify one logical group: %w"
        .nodeNotConfigured)

def commandNode (kind : String) (port : TopologyPort) : String :=
  if kind = "Call" then port.sendMethodID else port.sendNodeID

def routeTo (source : Source) (groupID : String) (port : TopologyPort) (node : Node) :
    CommandRoute where
  deviceRouted := true
  groupID := groupID
  sourceID := source.id
  port := trimSuffix port.sendNodeID "_Send"
  key := node.key
  sendKey := ⟨node.namespaceURI, port.sendNodeID⟩

def candidate (source : Source) (groupID kind : String) (place : TopologyPort × TopologyDevice) :
    Except CommandError CommandRoute :=
  match w.index.sourceNode source.id (commandNode kind place.1) with
  | none => .error .nodeNotConfigured
  | some node => if node.retired then .error .nodeRetired else .ok (routeTo source groupID place.1 node)

/-- The devices of a source that have the address in the group. -/
def devicesIn (source : Source) (t : SourceTopology) (groupID : String) (address : UInt32) :
    List (TopologyPort × TopologyDevice) :=
  t.places.filter fun place =>
    place.2.deviceAddress == address &&
      groupForDevice source place.1.portID place.2.deviceID == groupID

def deviceRoute (session : Session) (groupID kind : String) (address : UInt32) :
    Except CommandError CommandRoute :=
  match session.routes.lookup groupID with
  | none => .error .nodeNotConfigured
  | some selected =>
    if selected.sourceID = "" then .error .nodeNotConfigured
    else
      match w.sources.find? (·.id == selected.sourceID) with
      | none => .error .sourceNotSelectable
      | some source =>
        if !source.hasGroup groupID || !source.enabled || !source.catalogState.selectable ||
            !source.groupAvailable groupID then .error .sourceNotSelectable
        else
          match (w.catalogOf source.id).topology with
          | none => .error .nodeNotConfigured
          | some t =>
            match (devicesIn source t groupID address).mapM (w.candidate source groupID kind) with
            | .error e => .error e
            | .ok [route] => .ok route
            | .ok _ =>
              .error (.wrapped
                "selected source has ambiguous or missing device address in group: %w"
                .nodeNotConfigured)

/-- From the address on. -/
def addressedRoute (session : Session) (identifier payload groupHint kind : String) :
    Except CommandError CommandRoute := do
  let address ← commandAddress payload
  let groupID ← w.logicalGroup identifier groupHint address
  w.deviceRoute session groupID kind address

def resolveCommandRoute (identifier payload groupHint kind : String) :
    Except CommandError CommandRoute :=
  match w.session with
  | none => .error .sessionClosed
  | some session =>
    if groupHint ≠ "" then w.addressedRoute session identifier payload groupHint kind
    else
      match w.index.pointForNode identifier with
      | none => .error .nodeNotConfigured
      | some publicPoint =>
        if publicPoint.node.retired then .error .nodeRetired
        else if !w.strict identifier then w.portRoute session identifier
        else w.addressedRoute session identifier payload groupHint kind

end Gateway

end RcdServer.Addressing
