import RcdServer.Lib.Maps
import RcdServer.Lib.Text

/-!
# The union of source catalogs

`domain/catalog.go`. `BuildCatalogUnion` goes over the catalogs in the order of their group and
source, and over the nodes of each in the order of their identifiers. The first valid node under
an identifier owns it in its group; later ones have to be of its shape.
-/
namespace RcdServer.Catalog

open Lib Lib.Text

/-! ## Nodes -/

inductive NodeClass where
  | variable
  | method
  | other (name : String)
  deriving DecidableEq

inductive DataType where
  | boolean | uint32 | float | double | string
  | other (name : String)
  deriving DecidableEq

structure Argument where
  name : String
  dataType : DataType
  valueRank : Int32
  deriving DecidableEq

/-- `CatalogNode`, with the fields that validation reads. -/
structure CatalogNode where
  groupID : String
  kind : String
  identifier : String
  nodeClass : NodeClass
  dataType : DataType
  valueRank : Int32
  writable : Bool
  inputArguments : List Argument
  outputArguments : List Argument
  retired : Bool
  deriving DecidableEq

structure TopologyPort where
  sendNodeID : String
  deriving DecidableEq

structure SourceTopology where
  ports : List TopologyPort
  deriving DecidableEq

/-- `unset` is the empty text. -/
inductive CatalogState where
  | unset | discovering | ready | cached | conflict
  deriving DecidableEq

structure SourceCatalog where
  sourceID : String
  groupID : String
  state : CatalogState
  nodes : List CatalogNode
  topology : Option SourceTopology
  deriving DecidableEq

def SourceCatalog.nodeGroup (c : SourceCatalog) (node : CatalogNode) : String :=
  if node.groupID ≠ "" then node.groupID else c.groupID

def sameShape (a b : CatalogNode) : Bool :=
  if a.nodeClass ≠ b.nodeClass ∨ a.dataType ≠ b.dataType ∨ a.valueRank ≠ b.valueRank then false
  else if a.nodeClass ≠ .method then true
  else decide (a.inputArguments = b.inputArguments) && decide (a.outputArguments = b.outputArguments)

def hasSuffix (s suffix : String) : Bool := suffix.toList.isSuffixOf s.toList

/-- `strings.TrimSuffix`. -/
def trimSuffix (s suffix : String) : String :=
  if hasSuffix s suffix then String.ofList (s.toList.take (s.toList.length - suffix.toList.length))
  else s

def isText (a : Argument) (name : String) : Bool :=
  decide (a.name = name) && decide (a.dataType = .string) && decide (a.valueRank = -1)

def validCommandMethod (node : CatalogNode) : Bool :=
  hasSuffix node.identifier "_SendCommand" &&
    match node.inputArguments, node.outputArguments with
    | [input], [output] => isText input "HexData" && isText output "Result"
    | _, _ => false

def validCommandVariable (node : CatalogNode) : Bool :=
  decide (node.dataType = .string) && decide (node.valueRank = -1) && node.writable

/-- `commandVariables`: from the topology, or else from the names of the command methods. -/
def SourceCatalog.commandVariable (c : SourceCatalog) (identifier : String) : Bool :=
  match c.topology with
  | some topology => topology.ports.any fun port => port.sendNodeID == identifier
  | none => c.nodes.any fun node =>
      decide (node.nodeClass = .method) && hasSuffix node.identifier "_SendCommand" &&
        trimSuffix node.identifier "_SendCommand" ++ "_Send" == identifier

/-- A variable that has to be a command variable. -/
def SourceCatalog.commands (c : SourceCatalog) (node : CatalogNode) : Bool :=
  c.commandVariable node.identifier || node.kind == "command" ||
    (node.writable && hasSuffix node.identifier "_Send")

/-! ## Conflicts -/

inductive CatalogConflictKind where
  | duplicateNode | crossGroup | typeMismatch | methodSignature | commandVariable
  deriving DecidableEq

def CatalogConflictKind.text : CatalogConflictKind → String
  | .duplicateNode => "DuplicateNode"
  | .crossGroup => "CrossGroupDuplicate"
  | .typeMismatch => "TypeMismatch"
  | .methodSignature => "MethodSignature"
  | .commandVariable => "CommandVariable"

structure CatalogConflictDetail where
  kind : CatalogConflictKind
  groupID : String
  identifier : String
  sourceIDs : List String
  message : String
  deriving DecidableEq

inductive UnionError where
  | field (name message : String)
  | alreadyExists (sourceID : String)
  | crossGroupDuplicate (identifier firstGroup otherGroup : String)
  deriving DecidableEq

structure CatalogUnion where
  groups : Map String (Map String CatalogNode)
  sourceStates : String → Option CatalogState
  sourceTopologies : String → Option SourceTopology
  sourceNodes : String → Option (String → Option CatalogNode)
  conflicts : List CatalogConflictDetail

def CatalogUnion.empty : CatalogUnion where
  groups := ∅
  sourceStates := fun _ => none
  sourceTopologies := fun _ => none
  sourceNodes := fun _ => none
  conflicts := []

/-- The node of a group, or `nil`. -/
def CatalogUnion.node (u : CatalogUnion) (groupID identifier : String) : Option CatalogNode :=
  (u.groups.lookup groupID).bind fun nodes => nodes.lookup identifier

def CatalogUnion.openGroup (u : CatalogUnion) (groupID : String) : CatalogUnion :=
  { u with groups := if groupID ∈ u.groups then u.groups else u.groups.insert groupID ∅ }

def CatalogUnion.setNode (u : CatalogUnion) (groupID : String) (node : CatalogNode) : CatalogUnion :=
  { u with
    groups := u.groups.insert groupID
      (((u.groups.lookup groupID).getD ∅).insert node.identifier node) }

def markConflict (u : CatalogUnion) (d : CatalogConflictDetail) : CatalogUnion :=
  { u with conflicts := u.conflicts ++ [d] }

/-! ## BuildCatalogUnion -/

structure NodeOwner where
  node : CatalogNode
  sourceIDs : List String
  /-- The place in the list of conflicts, once there is one. -/
  conflictIndex : Option Nat

/-- The result so far with the local maps of the function. -/
structure Progress where
  union : CatalogUnion
  groupByIdentifier : String → Option String
  owners : String → String → Option NodeOwner

def Progress.mark (p : Progress) (d : CatalogConflictDetail) : Progress :=
  { p with union := markConflict p.union d }

def Progress.setOwner (p : Progress) (groupID identifier : String) (owner : NodeOwner) : Progress :=
  { p with
    owners := Function.update p.owners groupID
      (Function.update (p.owners groupID) identifier (some owner)) }

def Progress.setGroup (p : Progress) (identifier groupID : String) : Progress :=
  { p with groupByIdentifier := Function.update p.groupByIdentifier identifier (some groupID) }

/-- The end of the loop over the nodes: a valid node meets the owner of its identifier. -/
def joinOwner (sourceID groupID : String) (node : CatalogNode) (p : Progress) : Progress :=
  let identifier := node.identifier
  match p.owners groupID identifier with
  | none =>
    { p.setOwner groupID identifier ⟨node, [sourceID], none⟩ with
      union := p.union.setNode groupID node }
  | some owner =>
    let sourceIDs := owner.sourceIDs ++ [sourceID]
    match owner.conflictIndex with
    | some k =>
      { p.setOwner groupID identifier { owner with sourceIDs := sourceIDs } with
        union :=
          { p.union with
            conflicts := p.union.conflicts.modify k fun d =>
              { d with sourceIDs := d.sourceIDs ++ [sourceID] } } }
    | none =>
      if !sameShape owner.node node then
        (p.setOwner groupID identifier
          ⟨owner.node, sourceIDs, some p.union.conflicts.length⟩).mark
          { kind := .typeMismatch, groupID := groupID, identifier := identifier,
            sourceIDs := sourceIDs,
            message := "same-name nodes have incompatible class, type, rank, or method signature" }
      else p.setOwner groupID identifier { owner with sourceIDs := sourceIDs }

/-- The identifiers that the source has had so far. -/
abbrev Seen := String → Option CatalogNode

def nodeDetail (c : SourceCatalog) (node : CatalogNode) (kind : CatalogConflictKind)
    (message : String) : CatalogConflictDetail where
  kind := kind
  groupID := c.nodeGroup node
  identifier := node.identifier
  sourceIDs := [c.sourceID]
  message := message

/-- `SourceNodes` and the group of the node. -/
def noteNode (c : SourceCatalog) (node : CatalogNode) (p : Progress) : Progress :=
  let nodes := (p.union.sourceNodes c.sourceID).getD fun _ => none
  let sourceNodes := Function.update p.union.sourceNodes c.sourceID
    (some (Function.update nodes node.identifier (some node)))
  { p with union := { p.union.openGroup (c.nodeGroup node) with sourceNodes := sourceNodes } }

/-- The node has a name and stands in one group only. -/
def enterNode (c : SourceCatalog) (node : CatalogNode) (p : Progress) (seen : Seen) :
    Progress × Seen :=
  let groupID := c.nodeGroup node
  let p := p.setGroup node.identifier groupID
  match seen node.identifier with
  | some previous =>
    let kind := if sameShape previous node then .duplicateNode else .typeMismatch
    (p.mark (nodeDetail c node kind "source contains duplicate node identifier"), seen)
  | none =>
    let seen := Function.update seen node.identifier (some node)
    if node.nodeClass = .method ∧ validCommandMethod node = false then
      (p.mark (nodeDetail c node .methodSignature
        "method must have HexData String input and Result String output"), seen)
    else if node.nodeClass = .variable ∧ c.commands node = true ∧
        validCommandVariable node = false then
      (p.mark (nodeDetail c node .commandVariable
        "_Send variable must be a writable scalar String"), seen)
    else (joinOwner c.sourceID groupID node p, seen)

def visitNode (c : SourceCatalog) (x : Progress × Seen) (node : CatalogNode) :
    Except UnionError (Progress × Seen) :=
  let groupID := c.nodeGroup node
  let p := noteNode c node x.1
  if trim node.identifier = "" then
    let detail := nodeDetail c node .duplicateNode "empty node identifier"
    .ok (p.mark { detail with identifier := "" }, x.2)
  else
    match p.groupByIdentifier node.identifier with
    | some otherGroup =>
      if otherGroup ≠ groupID then
        .error (.crossGroupDuplicate node.identifier otherGroup groupID)
      else .ok (enterNode c node p x.2)
    | none => .ok (enterNode c node p x.2)

def nodesInOrder (c : SourceCatalog) : List CatalogNode :=
  c.nodes.insertionSort fun a b => textLe a.identifier.toList b.identifier.toList

def visitCatalog (p : Progress) (c : SourceCatalog) : Except UnionError Progress :=
  if trim c.sourceID = "" then .error (.field "source_id" "must not be empty")
  else if trim c.groupID = "" then .error (.field "group_id" "must not be empty")
  else if (p.union.sourceStates c.sourceID).isSome then .error (.alreadyExists c.sourceID)
  else do
    let state := if c.state = .unset then .discovering else c.state
    let union := p.union
    let topologies := match c.topology with
      | some topology => Function.update union.sourceTopologies c.sourceID (some topology)
      | none => union.sourceTopologies
    let p :=
      { p with
        union :=
          { union.openGroup c.groupID with
            sourceStates := Function.update union.sourceStates c.sourceID (some state)
            sourceTopologies := topologies
            sourceNodes := Function.update union.sourceNodes c.sourceID (some fun _ => none) } }
    let (p, _) ← (nodesInOrder c).foldlM (visitNode c) (p, fun _ => none)
    .ok p

/-- The order by group and source. -/
def catalogLe (a b : SourceCatalog) : Bool :=
  if a.groupID = b.groupID then textLe a.sourceID.toList b.sourceID.toList
  else textLe a.groupID.toList b.groupID.toList

def detailLe (a b : CatalogConflictDetail) : Bool :=
  if a.identifier ≠ b.identifier then textLe a.identifier.toList b.identifier.toList
  else textLe a.kind.text.toList b.kind.text.toList

/-- The order by group, identifier and kind. -/
def groupedDetailLe (a b : CatalogConflictDetail) : Bool :=
  if a.groupID ≠ b.groupID then textLe a.groupID.toList b.groupID.toList else detailLe a b

/-- Conflicts name each source once, and every named source is in conflict. -/
def finish (u : CatalogUnion) : CatalogUnion :=
  let conflicts := u.conflicts.map fun d => { d with sourceIDs := dedupRuns (sortTexts d.sourceIDs) }
  { u with
    sourceStates := (conflicts.flatMap (·.sourceIDs)).foldl
      (fun states sourceID => Function.update states sourceID (some .conflict)) u.sourceStates
    conflicts := conflicts.insertionSort fun a b => groupedDetailLe a b }

def buildCatalogUnion (catalogs : List SourceCatalog) : Except UnionError CatalogUnion := do
  let start : Progress := ⟨.empty, fun _ => none, fun _ _ => none⟩
  let p ← (catalogs.insertionSort fun a b => catalogLe a b).foldlM visitCatalog start
  .ok (finish p.union)

end RcdServer.Catalog
