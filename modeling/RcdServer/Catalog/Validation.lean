import RcdServer.Catalog.Union

/-!
# Validation of all catalogs

`validateCatalogs` of `runtime.go` and `buildCatalogIndex` of `catalog_index.go`. Sources that share
an identifier across groups are set apart first, the others are united, and the index is built
from those that are left without a conflict. Go ranges over its maps in any order; the order that
each loop takes is a parameter.
-/
namespace RcdServer.Catalog

open Lib Lib.Text

/-- The loops over maps whose body does not treat every key on its own. -/
inductive Loop where
  | owners
  | identifiers
  | groups (identifier : String)
  | sources (identifier groupID : String)
  | isolate
  | selectable
  | unionGroups
  | unionNodes (groupID : String)
  | providers (groupID identifier : String)

structure Ranges where
  visit : Loop → List String → List String
  perm : ∀ l keys, (visit l keys).Perm keys

/-! ## The index -/

structure IndexedPoint where
  groupID : String
  node : CatalogNode
  sourceIDs : List String
  deriving DecidableEq

structure CatalogIndex where
  union : CatalogUnion
  points : List IndexedPoint
  pointByNode : String → Option IndexedPoint
  groupByNode : String → Option String
  groupPoints : String → List IndexedPoint
  sourceNodes : Map String (String → Option CatalogNode)

/-- The nodes of a catalog by identifier; the last one under an identifier stays. -/
def nodeTable (c : SourceCatalog) : String → Option CatalogNode :=
  c.nodes.foldl (fun table node => Function.update table node.identifier (some node)) fun _ => none

def sourceNode (index : CatalogIndex) (sourceID identifier : String) : Option CatalogNode :=
  (index.sourceNodes.lookup sourceID).bind fun nodes => nodes identifier

/-- One point of the union with the sources that have a node under its identifier. -/
def addPoint (ranges : Ranges) (index : CatalogIndex) (key : String × String) : CatalogIndex :=
  let (groupID, identifier) := key
  match index.union.node groupID identifier with
  | none => index
  | some node =>
    let sourceIDs := (ranges.visit (.providers groupID identifier) index.sourceNodes.keys).filter
      fun sourceID => (sourceNode index sourceID identifier).isSome
    let allRetired := sourceIDs.all fun sourceID =>
      (sourceNode index sourceID identifier).all (·.retired)
    let retired := { node with retired := allRetired }
    let point : IndexedPoint := ⟨groupID, retired, sortTexts sourceIDs⟩
    { index with
      union := index.union.setNode groupID retired
      points := index.points ++ [point]
      pointByNode := Function.update index.pointByNode identifier (some point)
      groupByNode := Function.update index.groupByNode identifier (some groupID)
      groupPoints := Function.update index.groupPoints groupID
        (index.groupPoints groupID ++ [point]) }

def pointLe (a b : IndexedPoint) : Bool :=
  if a.groupID = b.groupID then textLe a.node.identifier.toList b.node.identifier.toList
  else textLe a.groupID.toList b.groupID.toList

def CatalogUnion.identifiers (u : CatalogUnion) (groupID : String) : List String :=
  ((u.groups.lookup groupID).getD ∅).keys

/-- The points of the union, in the order of the two loops. -/
def pointKeys (ranges : Ranges) (u : CatalogUnion) : List (String × String) :=
  (ranges.visit .unionGroups u.groups.keys).flatMap fun groupID =>
    (ranges.visit (.unionNodes groupID) (u.identifiers groupID)).map fun identifier =>
      (groupID, identifier)

def startIndex (u : CatalogUnion) (catalogs : List SourceCatalog) : CatalogIndex where
  union := u
  points := []
  pointByNode := fun _ => none
  groupByNode := fun _ => none
  groupPoints := fun _ => []
  sourceNodes := Map.inserts (·.sourceID) nodeTable ∅ catalogs

def buildCatalogIndex (ranges : Ranges) (catalogs : List SourceCatalog) :
    Except UnionError CatalogIndex := do
  let u ← buildCatalogUnion catalogs
  let index := (pointKeys ranges u).foldl (addPoint ranges) (startIndex u catalogs)
  .ok { index with points := index.points.insertionSort fun a b => pointLe a b }

/-! ## Identifiers in several groups -/

/-- The maps `owners[identifier][groupID][sourceID]`, as the set of their paths. -/
abbrev Owners := List (String × String × String)

def addOwner (sourceID : String) (c : SourceCatalog) (owners : Owners) (node : CatalogNode) : Owners :=
  let identifier := trim node.identifier
  if identifier = "" then owners else owners.insert (identifier, c.nodeGroup node, sourceID)

def addOwners (working : Map String SourceCatalog) (owners : Owners) (sourceID : String) : Owners :=
  match working.lookup sourceID with
  | none => owners
  | some c => c.nodes.foldl (addOwner sourceID c) owners

def collectOwners (ranges : Ranges) (working : Map String SourceCatalog) : Owners :=
  (ranges.visit .owners working.keys).foldl (addOwners working) []

def identifiersOf (owners : Owners) : List String := (owners.map (·.1)).dedup

def groupsOf (owners : Owners) (identifier : String) : List String :=
  ((owners.filter fun o => o.1 == identifier).map (·.2.1)).dedup

def sourcesOf (owners : Owners) (identifier groupID : String) : List String :=
  (owners.filter fun o => o.1 == identifier && o.2.1 == groupID).map (·.2.2)

/-- One identifier: nothing, or the sources under it and the conflict that names them. -/
def crossConflict (ranges : Ranges) (owners : Owners) (identifier : String) :
    Option (List String × CatalogConflictDetail) :=
  let groups := groupsOf owners identifier
  if groups.length < 2 then none
  else
    let groupIDs := ranges.visit (.groups identifier) groups
    let sourceIDs := groupIDs.flatMap fun groupID =>
      ranges.visit (.sources identifier groupID) (sourcesOf owners identifier groupID)
    some (sourceIDs,
      { kind := .crossGroup, groupID := String.intercalate "," (sortTexts groupIDs),
        identifier := identifier, sourceIDs := sortTexts sourceIDs,
        message := "identifier appears in more than one group" })

def crossConflicts (ranges : Ranges) (owners : Owners) :
    List (List String × CatalogConflictDetail) :=
  (ranges.visit .identifiers (identifiersOf owners)).filterMap (crossConflict ranges owners)

/-! ## validateCatalogs -/

/-- Conflict is a derived state and is evaluated anew. -/
def resetConflict (c : SourceCatalog) : SourceCatalog :=
  if c.state = .conflict then
    { c with state := if c.nodes.isEmpty then .discovering else .cached }
  else c

/-- The catalogs that share no identifier across groups. -/
def withoutCrossConflicts (ranges : Ranges) (working : Map String SourceCatalog)
    (crossSources : List String) : List SourceCatalog :=
  (ranges.visit .isolate working.keys).filterMap fun id =>
    if id ∈ crossSources then none else working.lookup id

def isolate (working : Map String SourceCatalog) (crossSources : List String) :
    Map String SourceCatalog :=
  working.mapValues fun id c => if id ∈ crossSources then { c with state := .conflict } else c

/-- The states that the union has found. -/
def takeStates (working : Map String SourceCatalog) (u : CatalogUnion) : Map String SourceCatalog :=
  working.mapValues fun id c =>
    match u.sourceStates id with
    | some state => { c with state := state }
    | none => c

def statesOf (working : Map String SourceCatalog) (id : String) : Option CatalogState :=
  (working.lookup id).map (·.state)

def selectable (ranges : Ranges) (working : Map String SourceCatalog) : List SourceCatalog :=
  (ranges.visit .selectable working.keys).filterMap fun id =>
    (working.lookup id).filter fun c => c.state ≠ .conflict

/-- Topologies, nodes and states are kept for the sources in conflict too. -/
def keepSnapshots (working : Map String SourceCatalog) (details : List CatalogConflictDetail)
    (index : CatalogIndex) : CatalogIndex :=
  { index with
    union :=
      { index.union with
        sourceTopologies := fun id =>
          ((working.lookup id).bind (·.topology)).or (index.union.sourceTopologies id)
        sourceNodes := fun id => ((working.lookup id).map nodeTable).or (index.union.sourceNodes id)
        conflicts := details
        sourceStates := fun id => (statesOf working id).or (index.union.sourceStates id) } }

inductive ValidationError where
  | union (error : UnionError)
  /-- `build catalog index: %w` -/
  | index (error : UnionError)
  deriving DecidableEq

/-- The source of a catalog is its key in the map. -/
def validateCatalogs (ranges : Ranges) (catalogs : Map String SourceCatalog) :
    Except ValidationError (CatalogIndex × (String → Option CatalogState) × Nat) := do
  let working := catalogs.mapValues fun _ c => resetConflict c
  let cross := crossConflicts ranges (collectOwners ranges working)
  let crossSources := cross.flatMap (·.1)
  let u ← (buildCatalogUnion (withoutCrossConflicts ranges working crossSources)).mapError .union
  let details := (cross.map (·.2) ++ u.conflicts).insertionSort fun a b => detailLe a b
  let working := takeStates (isolate working crossSources) u
  let index ← (buildCatalogIndex ranges (selectable ranges working)).mapError .index
  .ok (keepSnapshots working details index, statesOf working, details.length)

end RcdServer.Catalog
