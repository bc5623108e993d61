import RcdServer.Addressing.Routing
import RcdServer.Opc.HexText

/-!
# Commands reach the addressed device

The names in a command identify a device: the hint or the public port the group, the session the
source, and the first byte of the payload the device. A route to a device is the route to this one,
and the lower that gets the payload addresses it with the same byte.
-/
namespace RcdServer.Addressing

open Catalog (Argument NodeClass hasSuffix trimSuffix)
open Lib (Map)
open Lib.Run (bind_eq_ok_iff forall₂_of_mapM)
open Lib.Text
open Opc (SendData buildHexCommand hexDigit_ascii hexPairs hexStrToBytes)
open Routes (GroupBinding GroupRoute Session Source)
open Tracking (hexDigit)

/-! ## One address in two languages -/

theorem hexDigit_plus : hexDigit '+' = none := by decide

theorem hexDigit_visible {c : Char} {d : Nat} (h : hexDigit c = some d) : isWhiteSpace c = false := by
  have hall : ∀ n < 128, ∀ d, hexDigit (Char.ofNat n) = some d →
      isWhiteSpace (Char.ofNat n) = false := by decide +kernel
  have hchar := hall c.toNat (hexDigit_ascii h) d
  rw [Char.ofNat_toNat] at hchar
  exact hchar h

theorem isWhiteSpace_of_ascii {c : Char} (h : isAsciiWhiteSpace c = true) :
    isWhiteSpace c = true := by
  simp only [isAsciiWhiteSpace, Bool.or_eq_true, beq_iff_eq] at h
  simp only [isWhiteSpace, Bool.or_eq_true, Bool.and_eq_true, decide_eq_true_eq, beq_iff_eq]
  omega

/-- The manager drops more white space than the lower does. -/
theorem filter_visible (cs : List Char) :
    (cs.filter fun c => !isAsciiWhiteSpace c).filter (fun c => !isWhiteSpace c) =
      cs.filter fun c => !isWhiteSpace c := by
  rw [List.filter_filter]
  refine List.filter_congr fun c _ => ?_
  cases hascii : isAsciiWhiteSpace c with
  | false => simp
  | true => simp [isWhiteSpace_of_ascii hascii]

theorem hexPairs_first {a b : Char} {rest : List Char} {first : UInt8} {bytes : List UInt8}
    (h : hexPairs (a :: b :: rest) = some (first :: bytes)) :
    ∃ high low, (a = '+' ∨ hexDigit a = some high) ∧ hexDigit b = some low ∧
      first = UInt8.ofNat (16 * high + low) := by
  by_cases hplus : a = '+'
  · simp only [hexPairs, hplus, if_true, Option.bind_eq_bind, Option.bind_eq_some_iff,
      Option.pure_def, Option.some.injEq, List.cons.injEq] at h
    obtain ⟨high, -, low, hlow, _, -, hfirst, -⟩ := h
    exact ⟨high, low, .inl hplus, hlow, hfirst.symm⟩
  · simp only [hexPairs, hplus, if_false, Option.bind_eq_bind, Option.bind_eq_some_iff,
      Option.pure_def, Option.some.injEq, List.cons.injEq] at h
    obtain ⟨high, hhigh, low, hlow, _, -, hfirst, -⟩ := h
    exact ⟨high, low, .inr hhigh, hlow, hfirst.symm⟩

/-- Where both read a byte they read the same one. -/
theorem decodeString_hexPairs {cs : List Char} {first first' : UInt8} {bytes bytes' : List UInt8}
    (h : hexPairs cs = some (first :: bytes))
    (h' : decodeString (cs.filter fun c => !isWhiteSpace c) = some (first' :: bytes')) :
    first' = first := by
  match cs, h with
  | a :: b :: rest, h =>
    -- the sign that the lower takes is no digit for the manager
    obtain ⟨high, low, hhigh, hlow, rfl⟩ := hexPairs_first h
    have hb : isWhiteSpace b = false := hexDigit_visible hlow
    have ha : isWhiteSpace a = false := by
      rcases hhigh with rfl | hhigh
      · decide
      · exact hexDigit_visible hhigh
    rw [List.filter_cons_of_pos (by simp [ha]), List.filter_cons_of_pos (by simp [hb])] at h'
    simp only [decodeString, Option.bind_eq_bind, Option.bind_eq_some_iff, Option.pure_def,
      Option.some.injEq, List.cons.injEq] at h'
    obtain ⟨high', hhigh', low', hlow', _, -, rfl, -⟩ := h'
    rcases hhigh with rfl | hhigh
    · rw [hexDigit_plus] at hhigh'
      cases hhigh'
    · rw [Option.some.inj (hhigh.symm.trans hhigh'), Option.some.inj (hlow.symm.trans hlow')]

theorem buildHexCommand_ok {text : String} {data : SendData}
    (h : buildHexCommand text = .ok data) :
    ∃ first bytes, hexPairs (text.toList.filter fun c => !isAsciiWhiteSpace c) = some (first :: bytes) ∧
      data.command.head? = some first := by
  unfold buildHexCommand hexStrToBytes at h
  split_ifs at h
  cases hpairs : hexPairs (text.toList.filter fun c => !isAsciiWhiteSpace c) with
  | none =>
    rw [hpairs] at h
    cases h
  | some bytes =>
    rw [hpairs] at h
    match bytes, h with
    | first :: second :: rest, h =>
      obtain rfl := Except.ok.inj h
      exact ⟨first, second :: rest, rfl, rfl⟩

/-- The first byte on the wire is the address the manager has routed by. -/
theorem buildHexCommand_address {payload : String} {address : UInt32} {data : SendData}
    (haddress : commandAddress payload = .ok address) (h : buildHexCommand payload = .ok data) :
    data.command.head?.map UInt8.toUInt32 = some address := by
  obtain ⟨first, bytes, hpairs, hhead⟩ := buildHexCommand_ok h
  unfold commandAddress at haddress
  split at haddress
  · rename_i first' bytes' hdecoded
    obtain rfl := Except.ok.inj haddress
    rw [← filter_visible] at hdecoded
    rw [hhead, decodeString_hexPairs hpairs hdecoded]
    rfl
  · cases haddress

/-! ## Addressed devices -/

namespace Gateway

variable (w : Gateway)

/-- The catalogs have passed the assignment of their groups. -/
def Accepted : Prop :=
  ∀ sourceID catalog, w.catalogs.lookup sourceID = some catalog →
    ∃ source raw, assignCatalogGroups source raw = .ok catalog

/-- Some source has a device with the address on this public port and binds it to the group. -/
def Binds (identifier : String) (address : UInt32) (groupID : String) : Prop :=
  ∃ source ∈ w.sources, ∃ t, (w.catalogOf source.id).topology = some t ∧
    ∃ place ∈ t.places, place.1.carries identifier = true ∧ place.2.deviceAddress = address ∧
      groupForDevice source place.1.portID place.2.deviceID = groupID

/-- The group is the hint or, without a hint, the only one that the address is bound to. -/
def Names (identifier groupHint : String) (address : UInt32) (groupID : String) : Prop :=
  (groupHint ≠ "" ∧ groupID = groupHint) ∨
    (groupHint = "" ∧ ∀ other, w.Binds identifier address other ↔ other = groupID)

/-- The session has selected the source for the group, and commands may go there. -/
structure Selects (session : Session) (groupID : String) (source : Source) : Prop where
  route : ∃ selected, session.routes.lookup groupID = some selected ∧
    selected.sourceID = source.id ∧ source.id ≠ ""
  found : w.sources.find? (·.id == source.id) = some source
  enabled : source.enabled = true
  selectable : source.catalogState.selectable = true
  available : source.groupAvailable groupID = true

/-- Of all devices of the source, the one of this port alone has its address within the group. -/
structure Sole (source : Source) (groupID : String) (port : TopologyPort)
    (device : TopologyDevice) (t : SourceTopology) : Prop where
  topology : (w.catalogOf source.id).topology = some t
  mem : (port, device) ∈ t.places
  group : groupForDevice source port.portID device.deviceID = groupID
  unique : ∀ place ∈ t.places, place.2.deviceAddress = device.deviceAddress →
    groupForDevice source place.1.portID place.2.deviceID = groupID → place = (port, device)

/-- The command identifies the device, and its node is live. -/
structure Addresses (session : Session) (identifier payload groupHint kind groupID : String)
    (source : Source) (port : TopologyPort) (device : TopologyDevice) (node : Node) : Prop where
  opened : w.session = some session
  address : commandAddress payload = .ok device.deviceAddress
  names : w.Names identifier groupHint device.deviceAddress groupID
  selects : w.Selects session groupID source
  sole : ∃ t, w.Sole source groupID port device t
  filed : w.index.sourceNode source.id (commandNode kind port) = some node
  live : node.retired = false

/-- A hint or a source with bindings takes the command away from the port routes. -/
def Strict (identifier groupHint : String) : Prop :=
  groupHint ≠ "" ∨ ∃ point, w.index.pointForNode identifier = some point ∧
    point.node.retired = false ∧ w.strict identifier = true

variable {w}

theorem mem_publicGroups {identifier : String} {address : UInt32} {groupID : String} :
    groupID ∈ w.publicGroups identifier address ↔ w.Binds identifier address groupID := by
  rw [publicGroups, List.mem_dedup, List.mem_flatMap]
  refine exists_congr fun source => and_congr_right fun _ => ?_
  cases htopology : (w.catalogOf source.id).topology with
  | none => simp
  | some t =>
    simp only [List.mem_map, List.mem_filter, Bool.and_eq_true, beq_iff_eq, Option.some.injEq,
      exists_eq_left', and_assoc]

theorem logicalGroup_ok_iff {identifier groupHint : String} {address : UInt32} {groupID : String} :
    w.logicalGroup identifier groupHint address = .ok groupID ↔
      w.Names identifier groupHint address groupID := by
  unfold logicalGroup Names
  by_cases hhint : groupHint = ""
  · have hnodup : (w.publicGroups identifier address).Nodup := List.nodup_dedup _
    have hsingle : w.publicGroups identifier address = [groupID] ↔
        ∀ other, w.Binds identifier address other ↔ other = groupID := by
      simp only [← mem_publicGroups]
      constructor
      · intro h
        simp [h]
      · intro h
        refine List.perm_singleton.mp ?_
        exact (List.perm_ext_iff_of_nodup hnodup (List.nodup_singleton _)).mpr (by simpa using h)
    rw [if_neg (by simp [hhint]), ← hsingle]
    simp only [hhint, ne_eq, not_true_eq_false, false_and, true_and, false_or]
    split
    · rename_i group hgroups
      rw [hgroups]
      simp
    · rename_i hgroups
      constructor
      · intro h
        cases h
      · intro h
        exact absurd h (hgroups groupID)
  · rw [if_pos hhint]
    simp [hhint, eq_comm]

theorem places_nodup {t : SourceTopology} (h : WellFormed t.ports) : t.places.Nodup := by
  have howners : t.places.map (fun place => (⟨place.1.portID, place.2.deviceID⟩ : TopologyOwner)) =
      t.ports.flatMap (·.owners) := by
    rw [SourceTopology.places, List.map_flatMap]
    refine List.flatMap_congr fun port _ => ?_
    rw [List.map_map]
    rfl
  exact List.Nodup.of_map _ (howners ▸ h.devices_nodup)

theorem Accepted.wellFormed (h : w.Accepted) {sourceID : String} {t : SourceTopology}
    (ht : (w.catalogOf sourceID).topology = some t) : WellFormed t.ports := by
  unfold catalogOf at ht
  cases hcatalog : w.catalogs.lookup sourceID with
  | none =>
    rw [hcatalog] at ht
    cases ht
  | some catalog =>
    rw [hcatalog] at ht
    obtain ⟨source, raw, hassign⟩ := h sourceID catalog hcatalog
    exact wellFormed_of_assigned hassign ht

theorem devicesIn_eq_singleton_iff {source : Source} {t : SourceTopology} {groupID : String}
    {address : UInt32} {port : TopologyPort} {device : TopologyDevice} (h : WellFormed t.ports) :
    devicesIn source t groupID address = [(port, device)] ↔
      (port, device) ∈ t.places ∧ device.deviceAddress = address ∧
        groupForDevice source port.portID device.deviceID = groupID ∧
        ∀ place ∈ t.places, place.2.deviceAddress = address →
          groupForDevice source place.1.portID place.2.deviceID = groupID →
          place = (port, device) := by
  have hmem : ∀ place, place ∈ devicesIn source t groupID address ↔
      place ∈ t.places ∧ place.2.deviceAddress = address ∧
        groupForDevice source place.1.portID place.2.deviceID = groupID := by
    intro place
    rw [devicesIn, List.mem_filter, Bool.and_eq_true, beq_iff_eq, beq_iff_eq]
  have hnodup : (devicesIn source t groupID address).Nodup := (places_nodup h).filter _
  constructor
  · intro hlist
    obtain ⟨hplace, haddress, hgroup⟩ := (hmem (port, device)).mp (by rw [hlist]; simp)
    refine ⟨hplace, haddress, hgroup, fun place hin ha hg => ?_⟩
    simpa [hlist] using (hmem place).mpr ⟨hin, ha, hg⟩
  · rintro ⟨hplace, haddress, hgroup, hunique⟩
    refine List.perm_singleton.mp ?_
    refine (List.perm_ext_iff_of_nodup hnodup (List.nodup_singleton _)).mpr fun place => ?_
    rw [hmem, List.mem_singleton]
    constructor
    · rintro ⟨hin, ha, hg⟩
      exact hunique place hin ha hg
    · rintro rfl
      exact ⟨hplace, haddress, hgroup⟩

theorem candidate_ok_iff {source : Source} {groupID kind : String}
    {place : TopologyPort × TopologyDevice} {route : CommandRoute} :
    w.candidate source groupID kind place = .ok route ↔
      ∃ node, w.index.sourceNode source.id (commandNode kind place.1) = some node ∧
        node.retired = false ∧ routeTo source groupID place.1 node = route := by
  unfold candidate
  split
  · rename_i hnone
    simp [hnone]
  · rename_i node hnode
    cases hretired : node.retired <;> simp [hnode, hretired]

theorem deviceRoute_ok_iff {session : Session} {groupID kind : String} {address : UInt32}
    {route : CommandRoute} :
    w.deviceRoute session groupID kind address = .ok route ↔
      ∃ source t place, w.Selects session groupID source ∧
        (w.catalogOf source.id).topology = some t ∧
        devicesIn source t groupID address = [place] ∧
        w.candidate source groupID kind place = .ok route := by
  constructor
  · intro h
    unfold deviceRoute at h
    split at h
    · cases h
    rename_i selected hselected
    split_ifs at h with hempty
    split at h
    · cases h
    rename_i source hsource
    split_ifs at h with hrefused
    simp only [Bool.or_eq_true, Bool.not_eq_true', not_or, Bool.not_eq_false] at hrefused
    split at h
    · cases h
    rename_i t ht
    split at h
    · cases h
    · rename_i route' hroutes
      obtain rfl := Except.ok.inj h
      obtain ⟨place, rest, hcandidate, hrest, hplaces⟩ :=
        List.forall₂_cons_right_iff.mp (forall₂_of_mapM hroutes)
      obtain rfl := List.forall₂_nil_right_iff.mp hrest
      have hid : source.id = selected.sourceID := by simpa using List.find?_some hsource
      refine ⟨source, t, place, ⟨⟨selected, hselected, hid.symm, ?_⟩, ?_, ?_, ?_, ?_⟩, ht, hplaces,
        hcandidate⟩
      · rwa [hid]
      · rwa [hid]
      · exact hrefused.1.1.2
      · exact hrefused.1.2
      · exact hrefused.2
    · cases h
  · rintro ⟨source, t, place, hselects, ht, hplaces, hcandidate⟩
    obtain ⟨selected, hselected, hid, hnonempty⟩ := hselects.route
    have hgroup : source.hasGroup groupID = true := by
      have := hselects.available
      rw [Source.groupAvailable, Bool.and_eq_true] at this
      exact this.1
    unfold deviceRoute
    simp [hselected, hid, hnonempty, hselects.found, hgroup, hselects.enabled, hselects.selectable,
      hselects.available, ht, hplaces, hcandidate]

theorem addressedRoute_ok_iff (h : w.Accepted) {session : Session} (hsession : w.session = some session)
    {identifier payload groupHint kind : String} {route : CommandRoute} :
    w.addressedRoute session identifier payload groupHint kind = .ok route ↔
      ∃ groupID source port device node,
        w.Addresses session identifier payload groupHint kind groupID source port device node ∧
        routeTo source groupID port node = route := by
  unfold addressedRoute
  constructor
  · intro hok
    obtain ⟨address, haddress, hok⟩ := bind_eq_ok_iff.mp hok
    obtain ⟨groupID, hgroup, hok⟩ := bind_eq_ok_iff.mp hok
    obtain ⟨source, t, ⟨port, device⟩, hselects, ht, hplaces, hcandidate⟩ := deviceRoute_ok_iff.mp hok
    obtain ⟨node, hfiled, hlive, hroute⟩ := candidate_ok_iff.mp hcandidate
    obtain ⟨hmem, rfl, hg, hunique⟩ := (devicesIn_eq_singleton_iff (h.wellFormed ht)).mp hplaces
    exact ⟨groupID, source, port, device, node, ⟨hsession, haddress, logicalGroup_ok_iff.mp hgroup,
      hselects, ⟨t, ht, hmem, hg, hunique⟩, hfiled, hlive⟩, hroute⟩
  · rintro ⟨groupID, source, port, device, node, hto, hroute⟩
    obtain ⟨t, hsole⟩ := hto.sole
    have hplaces := (devicesIn_eq_singleton_iff (h.wellFormed hsole.topology)).mpr
      ⟨hsole.mem, rfl, hsole.group, hsole.unique⟩
    have hcandidate : w.candidate source groupID kind (port, device) = .ok route :=
      candidate_ok_iff.mpr ⟨node, hto.filed, hto.live, hroute⟩
    have hroute := deviceRoute_ok_iff.mpr
      ⟨source, t, _, hto.selects, hsole.topology, hplaces, hcandidate⟩
    exact bind_eq_ok_iff.mpr ⟨_, hto.address,
      bind_eq_ok_iff.mpr ⟨groupID, logicalGroup_ok_iff.mpr hto.names, hroute⟩⟩

theorem portRoute_legacy {session : Session} {identifier : String} {route : CommandRoute}
    (h : w.portRoute session identifier = .ok route) : route.deviceRouted = false := by
  unfold portRoute at h
  split at h
  · cases h
  · obtain rfl := Except.ok.inj h
    rfl

theorem resolveCommandRoute_strict {identifier groupHint : String}
    (h : w.Strict identifier groupHint) {session : Session} (hsession : w.session = some session)
    (payload kind : String) :
    w.resolveCommandRoute identifier payload groupHint kind =
      w.addressedRoute session identifier payload groupHint kind := by
  rw [resolveCommandRoute, hsession]
  by_cases hhint : groupHint = ""
  · obtain ⟨point, hpoint, hlive, hstrict⟩ := h.resolve_left (not_not.mpr hhint)
    simp [hhint, hpoint, hlive, hstrict]
  · simp [hhint]

/-- Everything else is a route to a port, or no route. -/
theorem strict_of_deviceRouted {identifier payload groupHint kind : String} {route : CommandRoute}
    (h : w.resolveCommandRoute identifier payload groupHint kind = .ok route)
    (hdevice : route.deviceRouted = true) :
    w.Strict identifier groupHint ∧ ∃ session, w.session = some session := by
  unfold resolveCommandRoute at h
  cases hsession : w.session with
  | none =>
    rw [hsession] at h
    cases h
  | some session =>
    simp only [hsession] at h
    refine ⟨?_, session, rfl⟩
    by_cases hhint : groupHint = ""
    · rw [if_neg (not_not.mpr hhint)] at h
      cases hpoint : w.index.pointForNode identifier with
      | none =>
        rw [hpoint] at h
        cases h
      | some point =>
        simp only [hpoint] at h
        split_ifs at h with hretired hstrict
        · rw [portRoute_legacy h] at hdevice
          cases hdevice
        · exact .inr ⟨point, hpoint, by simpa using hretired, by simpa using hstrict⟩
    · exact .inl hhint

/-- A device route is the route to the device that the command identifies. -/
theorem deviceRouted_iff (h : w.Accepted) {identifier payload groupHint kind : String}
    {route : CommandRoute} :
    (w.resolveCommandRoute identifier payload groupHint kind = .ok route ∧
      route.deviceRouted = true) ↔
      w.Strict identifier groupHint ∧ ∃ session groupID source port device node,
        w.Addresses session identifier payload groupHint kind groupID source port device node ∧
        routeTo source groupID port node = route := by
  constructor
  · rintro ⟨hok, hdevice⟩
    obtain ⟨hstrict, session, hsession⟩ := strict_of_deviceRouted hok hdevice
    rw [resolveCommandRoute_strict hstrict hsession] at hok
    exact ⟨hstrict, session, (addressedRoute_ok_iff h hsession).mp hok⟩
  · rintro ⟨hstrict, session, groupID, source, port, device, node, hto, rfl⟩
    rw [resolveCommandRoute_strict hstrict hto.opened]
    exact ⟨(addressedRoute_ok_iff h hto.opened).mpr ⟨groupID, source, port, device, node, hto, rfl⟩,
      rfl⟩

end Gateway

/-! ## Ports of their own -/

theorem trimSuffix_append (name suffix : String) : trimSuffix (name ++ suffix) suffix = name := by
  unfold trimSuffix hasSuffix
  simp

theorem WellFormed.port_unique {ports : List TopologyPort} (h : WellFormed ports)
    {port other : TopologyPort} (hport : port ∈ ports) (hother : other ∈ ports) {identifier : String}
    (hid : identifier ∈ port.commandIDs) (hid' : identifier ∈ other.commandIDs) : other = port := by
  by_contra hne
  have hpairwise := (List.nodup_flatMap.mp h.commands_nodup).2
  have : Std.Symm (Function.onFun List.Disjoint TopologyPort.commandIDs) :=
    ⟨fun _ _ hdisjoint => hdisjoint.symm⟩
  exact hpairwise.forall hother hport hne hid' hid

theorem WellFormed.device_unique {ports : List TopologyPort} (h : WellFormed ports)
    {port : TopologyPort} (hport : port ∈ ports) {device other : TopologyDevice}
    (hdevice : device ∈ port.devices) (hother : other ∈ port.devices)
    (haddress : other.deviceAddress = device.deviceAddress) : other = device := by
  have hnodup : port.owners.Nodup := (List.nodup_flatMap.mp h.devices_nodup).1 port hport
  have hname : other.deviceID = device.deviceID := by
    rw [(h.addressed port hport other hother).1, (h.addressed port hport device hdevice).1, haddress]
  exact List.inj_on_of_nodup_map hnodup hother hdevice (by rw [hname])

theorem carries_iff {port : TopologyPort} {identifier : String} :
    port.carries identifier = true ↔ identifier ∈ port.commandIDs := by
  simp [TopologyPort.carries, TopologyPort.commandIDs]

theorem Gateway.commandNode_mem (kind : String) (port : TopologyPort) :
    commandNode kind port ∈ port.commandIDs := by
  unfold commandNode TopologyPort.commandIDs
  split_ifs <;> simp

/-- Where a device route leads: to nodes of the port of the device that no other port has, under a
name that the lower knows the port by, with an address that no other device of the port has. -/
structure Gateway.Leads (w : Gateway) (payload kind : String) (route : CommandRoute)
    (groupID : String) (source : Source) (port : TopologyPort) (device : TopologyDevice)
    (node : Node) : Prop where
  toGroup : route.groupID = groupID
  toSource : route.sourceID = source.id
  toPort : route.port = port.portName
  key : route.key = node.key
  keyNode : route.key.identifier = commandNode kind port
  sendKey : route.sendKey = ⟨route.key.namespaceURI, port.sendNodeID⟩
  ownPort : ∀ t, (w.catalogOf source.id).topology = some t → ∀ other ∈ t.ports,
    other.carries route.key.identifier = true ∨ other.carries route.sendKey.identifier = true →
    other = port
  ownAddress : ∀ other ∈ port.devices, other.deviceAddress = device.deviceAddress → other = device
  wire : ∀ data, buildHexCommand payload = .ok data →
    data.command.head?.map UInt8.toUInt32 = some device.deviceAddress

theorem Gateway.leads_of_addresses {w : Gateway} (h : w.Accepted) {session : Session}
    {identifier payload groupHint kind groupID : String} {source : Source} {port : TopologyPort}
    {device : TopologyDevice} {node : Node}
    (hto : w.Addresses session identifier payload groupHint kind groupID source port device node) :
    w.Leads payload kind (routeTo source groupID port node) groupID source port device node := by
  obtain ⟨t, hsole⟩ := hto.sole
  have hwf := h.wellFormed hsole.topology
  have hplace : port ∈ t.ports ∧ device ∈ port.devices := by
    have hmem := hsole.mem
    simp only [SourceTopology.places, List.mem_flatMap, List.mem_map, Prod.mk.injEq] at hmem
    obtain ⟨_, hport, _, hdevice, rfl, rfl⟩ := hmem
    exact ⟨hport, hdevice⟩
  have hname := hwf.named port hplace.1
  have hfiled := w.index.filed _ _ _ hto.filed
  refine ⟨rfl, rfl, ?_, rfl, hfiled, rfl, ?_, ?_, ?_⟩
  · show trimSuffix port.sendNodeID "_Send" = port.portName
    rw [hname.1, trimSuffix_append]
  · intro t' ht' other hother hcarries
    obtain rfl : t = t' := Option.some.inj (hsole.topology.symm.trans ht')
    rcases hcarries with hcarries | hcarries
    · have hkey : node.identifier ∈ port.commandIDs := hfiled ▸ commandNode_mem kind port
      exact hwf.port_unique hplace.1 hother hkey (carries_iff.mp hcarries)
    · have hsend : port.sendNodeID ∈ port.commandIDs := List.mem_cons_self
      exact hwf.port_unique hplace.1 hother hsend (carries_iff.mp hcarries)
  · exact fun other hother => hwf.device_unique hplace.1 hplace.2 hother
  · exact fun data hdata => buildHexCommand_address hto.address hdata

/-- Device routes lead to the addressed device alone, and are found for every device that a strict
command identifies. -/
theorem resolveCommandRoute_device (w : Gateway) (h : w.Accepted)
    (identifier payload groupHint kind : String) :
    (∀ route, w.resolveCommandRoute identifier payload groupHint kind = .ok route →
      route.deviceRouted = true →
      ∃ session groupID source port device node,
        w.Addresses session identifier payload groupHint kind groupID source port device node ∧
        w.Leads payload kind route groupID source port device node) ∧
    (w.Strict identifier groupHint →
      ∀ session groupID source port device node,
        w.Addresses session identifier payload groupHint kind groupID source port device node →
        ∃ route, w.resolveCommandRoute identifier payload groupHint kind = .ok route ∧
          route.deviceRouted = true) := by
  constructor
  · intro route hok hdevice
    obtain ⟨-, session, groupID, source, port, device, node, hto, rfl⟩ :=
      (Gateway.deviceRouted_iff h).mp ⟨hok, hdevice⟩
    exact ⟨session, groupID, source, port, device, node, hto, Gateway.leads_of_addresses h hto⟩
  · intro hstrict session groupID source port device node hto
    exact ⟨_, (Gateway.deviceRouted_iff h).mpr
      ⟨hstrict, session, groupID, source, port, device, node, hto, rfl⟩⟩

/-! ## A gateway with one source -/

def samplePort : TopologyPort := ⟨"p", "C", "C_Send", "C_SendCommand", [⟨"1", 1, ["D"]⟩]⟩

def sampleNode (identifier : String) (nodeClass : NodeClass) (writable : Bool)
    (arguments results : List Argument) : Node :=
  ⟨⟨"", "", identifier, nodeClass, .string, -1, writable, arguments, results, false⟩, "urn", "", ""⟩

def sampleRaw : SourceCatalog where
  sourceID := "S"
  groupID := ""
  state := .ready
  nodes :=
    [sampleNode "C_Send" .variable true [] [],
      sampleNode "C_SendCommand" .method false [⟨"HexData", .string, -1⟩] [⟨"Result", .string, -1⟩],
      sampleNode "D" .variable false [] []]
  topology := some ⟨1, [samplePort], []⟩

def sampleSource (bindings : List GroupBinding) : Source := ⟨"S", "G", bindings, [], true, .ready⟩

def sampleCatalog (bindings : List GroupBinding) : SourceCatalog :=
  (assignCatalogGroups (sampleSource bindings) sampleRaw).toOption.getD sampleRaw

def sampleIndex (nodes : List Node) : CommandIndex where
  pointForNode identifier := (findNode nodes identifier).map fun node => ⟨node.groupID, node⟩
  sourceNode _ identifier := findNode nodes identifier
  filed _ _ _ h := by simpa using List.find?_some h

def sampleGateway (bindings : List GroupBinding) : Gateway where
  session := some ⟨"s", 0, 0, (∅ : Map String GroupRoute).insert "G" ⟨"G", "S", 1, false⟩⟩
  sources := [sampleSource bindings]
  catalogs := (∅ : Map String SourceCatalog).insert "S" (sampleCatalog bindings)
  index := sampleIndex (sampleCatalog bindings).nodes

theorem sampleGateway_accepted {bindings : List GroupBinding} {catalog : SourceCatalog}
    (h : assignCatalogGroups (sampleSource bindings) sampleRaw = .ok catalog) :
    (sampleGateway bindings).Accepted := by
  have hsample : sampleCatalog bindings = catalog := by
    rw [sampleCatalog, h]
    rfl
  intro sourceID found hfound
  rw [sampleGateway, Map.lookup_insert_eq, hsample] at hfound
  split_ifs at hfound
  · exact ⟨sampleSource bindings, sampleRaw, Option.some.inj hfound ▸ h⟩
  · cases hfound

theorem resolveCommandRoute_device_sample :
    ∃ session groupID source port device node,
      (sampleGateway [⟨"G", "p", "1"⟩]).Addresses session "C_Send" "0103" "" "Write" groupID source port
        device node ∧
      (sampleGateway [⟨"G", "p", "1"⟩]).Leads "0103" "Write"
        ⟨true, "G", "S", "C", ⟨"urn", "C_Send"⟩, ⟨"urn", "C_Send"⟩⟩ groupID source port device node :=
  (resolveCommandRoute_device (sampleGateway [⟨"G", "p", "1"⟩]) (sampleGateway_accepted rfl)
    "C_Send" "0103" "" "Write").1 _ rfl rfl

/-- Without bindings the one device of the source is identified, and the route is the port's. -/
theorem resolveCommandRoute_unbound :
    (sampleGateway []).Accepted ∧
      (∃ session groupID source port device node,
        (sampleGateway []).Addresses session "C_Send" "0103" "" "Write" groupID source port device
          node) ∧
      (sampleGateway []).resolveCommandRoute "C_Send" "0103" "" "Write" =
        .ok ⟨false, "G", "S", "C", ⟨"urn", "C_Send"⟩, ⟨"urn", "C_Send"⟩⟩ := by
  have haccepted : (sampleGateway []).Accepted := sampleGateway_accepted rfl
  refine ⟨haccepted, ?_, rfl⟩
  have haddressed : (sampleGateway []).addressedRoute
      ⟨"s", 0, 0, (∅ : Map String GroupRoute).insert "G" ⟨"G", "S", 1, false⟩⟩ "C_Send" "0103" ""
      "Write" = .ok ⟨true, "G", "S", "C", ⟨"urn", "C_Send"⟩, ⟨"urn", "C_Send"⟩⟩ := rfl
  obtain ⟨groupID, source, port, device, node, hto, -⟩ :=
    (Gateway.addressedRoute_ok_iff haccepted rfl).mp haddressed
  exact ⟨_, groupID, source, port, device, node, hto⟩

end RcdServer.Addressing
