import RcdServer.Addressing.Topology

/-!
# Ownership

What `assignCatalogGroups` makes of a catalog with a topology. The topology says of some
identifiers who owns them; an accepted one says it once of each, and of every node that is not
retired. A node is then rewritten by its owner alone, whatever its group was before.
-/
namespace RcdServer.Addressing

open Catalog (CatalogNode)
open Lib.Run (bind_eq_ok_iff foldlM_history_nil foldlM_simulation)
open Routes (Source)

/-! ## Owners -/

inductive Ownership where
  | command (portID : String)
  | device (owner : TopologyOwner)
  | calculation (owners : List TopologyOwner)
  deriving DecidableEq

/-- What is written into a node that is owned so. -/
def Ownership.place (source : Source) (n : Node) : Ownership → Node
  | .command portID => { n with portID := portID, kind := "command" }
  | .device owner =>
    { n with
      portID := owner.portID
      deviceID := owner.deviceID
      groupID := groupForDevice source owner.portID owner.deviceID }
  | .calculation [owner] =>
    { n with
      kind := "calculation"
      portID := owner.portID
      deviceID := owner.deviceID
      groupID := groupForDevice source owner.portID owner.deviceID }
  | .calculation _ => { n with kind := "calculation" }

/-- The group of what belongs to one device is the device's, that of everything else the source's. -/
def Ownership.group (source : Source) : Ownership → String
  | .device owner => groupForDevice source owner.portID owner.deviceID
  | .calculation [owner] => groupForDevice source owner.portID owner.deviceID
  | _ => source.groupID

abbrev Claim := String × Ownership

def TopologyDevice.claims (d : TopologyDevice) (portID : String) : List Claim :=
  d.nodeIDs.map fun identifier => (identifier, .device ⟨portID, d.deviceID⟩)

def TopologyPort.claims (p : TopologyPort) : List Claim :=
  p.commandIDs.map (fun identifier => (identifier, .command p.portID)) ++
    p.devices.flatMap fun d => d.claims p.portID

/-- Who owns what, in the order of the topology. -/
def SourceTopology.claims (t : SourceTopology) : List Claim :=
  t.ports.flatMap (·.claims) ++ t.calculations.map fun c => (c.nodeID, .calculation c.owners)

/-- The node as its owner rewrites it. -/
def place (source : Source) (claims : List Claim) (n : Node) : Node :=
  match claims.find? (·.1 == n.identifier) with
  | some claim => claim.2.place source n
  | none => n

/-! ## What is left alone -/

/-- A node without the notes of the assignment. -/
def Node.bare (n : Node) : Node := { n with groupID := "", kind := "", portID := "", deviceID := "" }

theorem of_bare {α : Type*} (f : Node → α) (hf : ∀ n, f n.bare = f n) {n n' : Node}
    (h : n.bare = n'.bare) : f n = f n' := by
  rw [← hf n, h, hf]

theorem identifier_of_bare {n n' : Node} (h : n.bare = n'.bare) : n.identifier = n'.identifier :=
  of_bare (fun n => n.identifier) (fun _ => rfl) h

@[simp] theorem Ownership.bare_place (source : Source) (n : Node) (o : Ownership) :
    (o.place source n).bare = n.bare := by
  match o with
  | .command _ => rfl
  | .device _ => rfl
  | .calculation [] => rfl
  | .calculation [_] => rfl
  | .calculation (_ :: _ :: _) => rfl

@[simp] theorem bare_place (source : Source) (claims : List Claim) (n : Node) :
    (place source claims n).bare = n.bare := by
  unfold place
  split
  · exact Ownership.bare_place _ _ _
  · rfl

@[simp] theorem bare_annotate (source : Source) (topology : Option SourceTopology) (n : Node) :
    (annotate source topology n).bare = n.bare := by
  unfold annotate
  split
  · rfl
  · rfl

@[simp] theorem identifier_place (source : Source) (claims : List Claim) (n : Node) :
    (place source claims n).identifier = n.identifier :=
  identifier_of_bare (bare_place source claims n)

/-- All notes of a node that is not retired are new. -/
theorem annotate_of_bare {source : Source} {topology : Option SourceTopology} {n n' : Node}
    (h : n.bare = n'.bare) (hretired : n.retired = false) :
    annotate source topology n = annotate source topology n' := by
  obtain ⟨⟨_, _, _, _, _, _, _, _, _, _⟩, _, _, _⟩ := n
  obtain ⟨⟨_, _, _, _, _, _, _, _, _, _⟩, _, _, _⟩ := n'
  simp only [Node.bare, Node.mk.injEq, CatalogNode.mk.injEq, true_and, and_true] at h
  obtain ⟨⟨rfl, rfl, rfl, rfl, rfl, rfl, rfl, rfl⟩, rfl⟩ := h
  obtain rfl : _ = false := hretired
  rfl

/-! ## Claims one after the other -/

theorem place_nil (source : Source) (n : Node) : place source [] n = n := rfl

theorem place_of_mem {source : Source} {claims : List Claim} {n : Node} {o : Ownership}
    (hnodup : (claims.map Prod.fst).Nodup) (h : (n.identifier, o) ∈ claims) :
    place source claims n = o.place source n := by
  have hfind : claims.find? (·.1 == n.identifier) = some (n.identifier, o) := by
    induction claims with
    | nil => cases h
    | cons c claims ih =>
      rw [List.map_cons, List.nodup_cons] at hnodup
      rcases List.mem_cons.mp h with rfl | h
      · exact List.find?_cons_of_pos (beq_self_eq_true _)
      · have hne : c.1 ≠ n.identifier := by
          intro heq
          exact hnodup.1 (heq ▸ List.mem_map_of_mem h)
        rw [List.find?_cons_of_neg (by simpa using hne)]
        exact ih hnodup.2 h
  rw [place, hfind]

theorem place_of_not_mem {source : Source} {claims : List Claim} {n : Node}
    (h : n.identifier ∉ claims.map Prod.fst) : place source claims n = n := by
  have hfind : claims.find? (·.1 == n.identifier) = none := by
    rw [List.find?_eq_none]
    intro c hc heq
    exact h (List.mem_map.mpr ⟨c, hc, by simpa using heq⟩)
  rw [place, hfind]

/-- A new claim rewrites its own node only. -/
theorem setNode_place {source : Source} {claims : List Claim} {identifier : String} {o : Ownership}
    (nodes : List Node) (hnew : identifier ∉ claims.map Prod.fst) :
    setNode (nodes.map (place source claims)) identifier (o.place source) =
      nodes.map (place source (claims ++ [(identifier, o)])) := by
  rw [setNode, List.map_map]
  apply List.map_congr_left
  intro n _
  rw [Function.comp_apply, identifier_place]
  split_ifs with heq
  · rw [place_of_not_mem (heq ▸ hnew), place, List.find?_append,
      List.find?_eq_none.mpr fun c hc hc' => hnew ?_]
    · simp [heq]
    · exact List.mem_map.mpr ⟨c, hc, by simpa [heq] using hc'⟩
  · rw [place, place, List.find?_append]
    have hlast : [(identifier, o)].find? (·.1 == n.identifier) = none := by
      simpa using fun h => heq h.symm
    rw [hlast, Option.or_none]

/-- A command node can be written or called, anything else that is owned only read. -/
def Ownership.Suits (n : Node) : Ownership → Prop
  | .command _ => ¬ (n.nodeClass = .variable ∧ n.writable = false)
  | _ => readOnly n = true

def Ownership.isCommand : Ownership → Bool
  | .command _ => true
  | _ => false

theorem readable_of_readOnly {n : Node} (h : readOnly n = true) :
    n.nodeClass = .variable ∧ n.writable = false := by
  simp only [readOnly, Bool.and_eq_true, decide_eq_true_eq, Bool.not_eq_true'] at h
  exact h.1

theorem Ownership.Suits.isCommand_iff {n : Node} {o : Ownership} (h : o.Suits n) :
    o.isCommand = true ↔ ¬ (n.nodeClass = .variable ∧ n.writable = false) := by
  cases o with
  | command _ => exact ⟨fun _ => h, fun _ => rfl⟩
  | device _ => exact ⟨nofun, fun hn => absurd (readable_of_readOnly h) hn⟩
  | calculation _ => exact ⟨nofun, fun hn => absurd (readable_of_readOnly h) hn⟩

/-- What the loops have made of the nodes after some claims. -/
structure Placed (source : Source) (nodes : List Node) (claims : List Claim) (s : Assignment) :
    Prop where
  placed : s.nodes = nodes.map (place source claims)
  nodup : (claims.map Prod.fst).Nodup
  owners : ∀ x, x ∈ s.owners ↔ ∃ o, (x, o) ∈ claims ∧ o.isCommand = false
  commands : ∀ x, x ∈ s.commands ↔ ∃ o, (x, o) ∈ claims ∧ o.isCommand = true
  suits : ∀ c ∈ claims, ∃ n ∈ nodes, n.identifier = c.1 ∧ c.2.Suits n

section

variable {source : Source} {nodes : List Node} {claims : List Claim} {s s' : Assignment}

theorem placed_start (source : Source) (nodes : List Node) :
    Placed source nodes [] ⟨nodes, [], [], [], []⟩ where
  placed := by
    rw [List.map_congr_left fun n _ => place_nil source n]
    exact (List.map_id _).symm
  nodup := List.nodup_nil
  owners := by simp
  commands := by simp
  suits := by simp

/-- What has been noted besides the nodes and their owners does not matter. -/
theorem Placed.congr (h : Placed source nodes claims s) (hnodes : s'.nodes = s.nodes)
    (howners : s'.owners = s.owners) (hcommands : s'.commands = s.commands) :
    Placed source nodes claims s' where
  placed := hnodes.trans h.placed
  nodup := h.nodup
  owners := howners ▸ h.owners
  commands := hcommands ▸ h.commands
  suits := h.suits

/-- The node found under an identifier nobody has claimed is as it was at first. -/
theorem Placed.found (h : Placed source nodes claims s) {identifier : String} {n : Node}
    (hfound : findNode s.nodes identifier = some n) :
    ∃ n₀ ∈ nodes, n₀.identifier = identifier ∧ n = place source claims n₀ := by
  have hmem := List.mem_of_find?_eq_some hfound
  have hname : n.identifier = identifier := by simpa using List.find?_some hfound
  rw [h.placed] at hmem
  obtain ⟨n₀, hn₀, rfl⟩ := List.mem_map.mp hmem
  exact ⟨n₀, hn₀, (identifier_place _ _ _).symm.trans hname, rfl⟩

/-- A claim that has not been noted is the first one on its node. -/
theorem Placed.fresh (h : Placed source nodes claims s)
    (hnodup : (nodes.map (·.identifier)).Nodup) {identifier : String} {o : Ownership} {n : Node}
    (hfound : findNode s.nodes identifier = some n) (hsuits : o.Suits n)
    (howners : o.isCommand = false → identifier ∉ s.owners)
    (hcommands : o.isCommand = true → identifier ∉ s.commands) :
    identifier ∉ claims.map Prod.fst ∧ ∃ n₀ ∈ nodes, n₀.identifier = identifier ∧ o.Suits n₀ := by
  obtain ⟨n₀, hn₀, hname, rfl⟩ := h.found hfound
  have hnew : identifier ∉ claims.map Prod.fst := by
    intro hmem
    obtain ⟨c, hc, rfl⟩ := List.mem_map.mp hmem
    obtain ⟨n₁, hn₁, hname₁, hsuits₁⟩ := h.suits c hc
    obtain rfl : n₁ = n₀ := List.inj_on_of_nodup_map hnodup hn₁ hn₀ (hname₁.trans hname.symm)
    -- both claims are commands, or neither is
    have hsame : o.isCommand = true ↔ c.2.isCommand = true := by
      rw [hsuits.isCommand_iff, hsuits₁.isCommand_iff,
        of_bare (fun n => n.nodeClass) (fun _ => rfl) (bare_place source claims n₁),
        of_bare (fun n => n.writable) (fun _ => rfl) (bare_place source claims n₁)]
    by_cases hcommand : o.isCommand = true
    · exact hcommands hcommand ((h.commands _).mpr ⟨c.2, hc, hsame.mp hcommand⟩)
    · rw [Bool.not_eq_true] at hcommand
      refine howners hcommand ((h.owners _).mpr ⟨c.2, hc, ?_⟩)
      rw [← Bool.not_eq_true, ← hsame, hcommand]
      exact Bool.false_ne_true
  refine ⟨hnew, n₀, hn₀, hname, ?_⟩
  rwa [place_of_not_mem (hname ▸ hnew)] at hsuits

/-- A noted claim has rewritten its node. -/
theorem Placed.claim (h : Placed source nodes claims s)
    (hnodup : (nodes.map (·.identifier)).Nodup) {identifier : String} {o : Ownership} {n : Node}
    (hfound : findNode s.nodes identifier = some n) (hsuits : o.Suits n)
    (howners : o.isCommand = false → identifier ∉ s.owners ∧ s'.owners = identifier :: s.owners ∧
      s'.commands = s.commands)
    (hcommands : o.isCommand = true → identifier ∉ s.commands ∧
      s'.commands = identifier :: s.commands ∧ s'.owners = s.owners)
    (hnodes : s'.nodes = setNode s.nodes identifier (o.place source)) :
    Placed source nodes (claims ++ [(identifier, o)]) s' := by
  obtain ⟨hnew, n₀, hn₀, hname, hsuits₀⟩ := h.fresh hnodup hfound hsuits
    (fun ho => (howners ho).1) (fun ho => (hcommands ho).1)
  refine ⟨?_, ?_, ?_, ?_, ?_⟩
  · rw [hnodes, h.placed]
    exact setNode_place nodes hnew
  · rw [List.map_append]
    exact h.nodup.append (List.nodup_singleton _) (List.disjoint_singleton.mpr hnew)
  · intro x
    simp only [List.mem_append, List.mem_singleton, Prod.mk.injEq, or_and_right, exists_or,
      ← h.owners]
    cases ho : o.isCommand with
    | false =>
      rw [(howners ho).2.1, List.mem_cons, or_comm]
      exact or_congr_right ⟨fun hx => ⟨o, ⟨hx, rfl⟩, ho⟩, fun ⟨_, hx, _⟩ => hx.1⟩
    | true =>
      rw [(hcommands ho).2.2]
      refine ⟨.inl, ?_⟩
      rintro (hx | ⟨_, ⟨_, rfl⟩, hx⟩)
      · exact hx
      · exact absurd (ho.symm.trans hx).symm Bool.false_ne_true
  · intro x
    simp only [List.mem_append, List.mem_singleton, Prod.mk.injEq, or_and_right, exists_or,
      ← h.commands]
    cases ho : o.isCommand with
    | false =>
      rw [(howners ho).2.2]
      refine ⟨.inl, ?_⟩
      rintro (hx | ⟨_, ⟨_, rfl⟩, hx⟩)
      · exact hx
      · exact absurd (ho.symm.trans hx) Bool.false_ne_true
    | true =>
      rw [(hcommands ho).2.1, List.mem_cons, or_comm]
      exact or_congr_right ⟨fun hx => ⟨o, ⟨hx, rfl⟩, ho⟩, fun ⟨_, hx, _⟩ => hx.1⟩
  · intro c hc
    rcases List.mem_append.mp hc with hc | hc
    · exact h.suits c hc
    · rw [List.mem_singleton.mp hc]
      exact ⟨n₀, hn₀, hname, hsuits₀⟩

/-! ## The loops -/

theorem Placed.assignCommand (h : Placed source nodes claims s)
    (hnodup : (nodes.map (·.identifier)).Nodup) {port : TopologyPort} {identifier : String}
    (hport : identifier ∈ port.commandIDs) (hstep : assignCommand port s identifier = .ok s') :
    Placed source nodes (claims ++ [(identifier, .command port.portID)]) s' := by
  unfold Addressing.assignCommand at hstep
  split at hstep
  · cases hstep
  · rename_i n hfound
    split_ifs at hstep with hseen hsend hmethod
    obtain rfl := Except.ok.inj hstep
    refine h.claim hnodup hfound ?_ nofun (fun _ => ⟨hseen, rfl, rfl⟩) rfl
    rintro ⟨hclass, hwritable⟩
    rcases List.mem_pair.mp hport with rfl | rfl
    · apply hsend
      refine ⟨rfl, .inr ?_⟩
      simp [Catalog.validCommandVariable, hwritable]
    · apply hmethod
      refine ⟨rfl, .inl ?_⟩
      rw [hclass]
      exact nofun

theorem Placed.assignPoint (h : Placed source nodes claims s)
    (hnodup : (nodes.map (·.identifier)).Nodup) {port : TopologyPort} {device : TopologyDevice}
    {identifier : String} (hstep : assignPoint source port device s identifier = .ok s') :
    Placed source nodes (claims ++ [(identifier, .device ⟨port.portID, device.deviceID⟩)]) s' := by
  unfold Addressing.assignPoint at hstep
  split_ifs at hstep with hseen
  split at hstep
  · cases hstep
  · rename_i n hfound
    split_ifs at hstep with hreadOnly
    obtain rfl := Except.ok.inj hstep
    refine h.claim hnodup hfound ?_ (fun _ => ⟨hseen, rfl, rfl⟩) nofun rfl
    simpa [Ownership.Suits] using hreadOnly

theorem Placed.assignCalculation (h : Placed source nodes claims s)
    (hnodup : (nodes.map (·.identifier)).Nodup) {calculation : TopologyCalculation}
    (hstep : assignCalculation source s calculation = .ok s') :
    Placed source nodes (claims ++ [(calculation.nodeID, .calculation calculation.owners)]) s' := by
  unfold Addressing.assignCalculation at hstep
  split at hstep
  · cases hstep
  · rename_i n hfound
    split_ifs at hstep with hreadOnly hseen howners
    obtain rfl := Except.ok.inj hstep
    refine h.claim hnodup hfound ?_ (fun _ => ⟨hseen, rfl, rfl⟩) nofun ?_
    · simpa [Ownership.Suits] using hreadOnly
    · match calculation.owners with
      | [] => rfl
      | [_] => rfl
      | _ :: _ :: _ => rfl

theorem Placed.assignDevice (h : Placed source nodes claims s)
    (hnodup : (nodes.map (·.identifier)).Nodup) {port : TopologyPort} {device : TopologyDevice}
    (hstep : assignDevice source port s device = .ok s') :
    Placed source nodes (claims ++ device.claims port.portID) s' := by
  simp only [Addressing.assignDevice] at hstep
  split_ifs at hstep
  refine foldlM_history_nil (fun (done : List String) t => Placed source nodes (claims ++
    done.map fun identifier => (identifier, .device ⟨port.portID, device.deviceID⟩)) t) ?_ ?_ hstep
  · intro done identifier t t' ht hpoint
    rw [List.map_append, ← List.append_assoc]
    exact ht.assignPoint hnodup hpoint
  · rw [List.map_nil, List.append_nil]
    exact h.congr rfl rfl rfl

theorem Placed.assignPort (h : Placed source nodes claims s)
    (hnodup : (nodes.map (·.identifier)).Nodup) {port : TopologyPort}
    (hstep : assignPort source s port = .ok s') :
    Placed source nodes (claims ++ port.claims) s' := by
  unfold Addressing.assignPort at hstep
  split_ifs at hstep
  obtain ⟨m, hcommands, hdevices⟩ := bind_eq_ok_iff.mp hstep
  rw [List.foldlM_cons] at hcommands
  obtain ⟨k, hsend, hcommands⟩ := bind_eq_ok_iff.mp hcommands
  rw [List.foldlM_cons] at hcommands
  obtain ⟨l, hmethod, hlast⟩ := bind_eq_ok_iff.mp hcommands
  obtain rfl : l = m := Except.ok.inj hlast
  have hstart : Placed source nodes claims { s with ports := port.portID :: s.ports } :=
    h.congr rfl rfl rfl
  have hk := hstart.assignCommand hnodup (List.mem_pair.mpr (.inl rfl)) hsend
  have hl := hk.assignCommand hnodup (List.mem_pair.mpr (.inr rfl)) hmethod
  have hpairs : claims ++ [(port.sendNodeID, .command port.portID)] ++
      [(port.sendMethodID, .command port.portID)] =
      claims ++ port.commandIDs.map fun identifier => (identifier, .command port.portID) := by
    rw [List.append_assoc]
    rfl
  rw [hpairs] at hl
  rw [TopologyPort.claims, ← List.append_assoc]
  refine foldlM_history_nil (fun (done : List TopologyDevice) t => Placed source nodes
    (claims ++ port.commandIDs.map (fun identifier => (identifier, .command port.portID)) ++
      done.flatMap fun d => d.claims port.portID) t) ?_ ?_ hdevices
  · intro done device t t' ht hdevice
    rw [List.flatMap_append, List.flatMap_singleton, ← List.append_assoc]
    exact ht.assignDevice hnodup hdevice
  · rw [List.flatMap_nil, List.append_nil]
    exact hl

end

/-- Whoever owns a node of an accepted topology has rewritten it, and nobody else has. -/
theorem placed_of_assignTopology {source : Source} {nodes nodes' : List Node} {t : SourceTopology}
    (hnodup : (nodes.map (·.identifier)).Nodup) (h : assignTopology source nodes t = .ok nodes') :
    (t.claims.map Prod.fst).Nodup ∧ (∀ c ∈ t.claims, ∃ n ∈ nodes, n.identifier = c.1 ∧ c.2.Suits n) ∧
      (∀ n ∈ nodes', n.retired = false → ∃ o, (n.identifier, o) ∈ t.claims) ∧
      nodes' = nodes.map (place source t.claims) := by
  unfold assignTopology at h
  split_ifs at h
  obtain ⟨s, hports, h⟩ := bind_eq_ok_iff.mp h
  obtain ⟨r, hcalculations, h⟩ := bind_eq_ok_iff.mp h
  have hs : Placed source nodes (t.ports.flatMap (·.claims)) s := by
    refine foldlM_history_nil (fun (done : List TopologyPort) s =>
      Placed source nodes (done.flatMap (·.claims)) s) ?_ (placed_start source nodes) hports
    intro done port s s' hs hport
    rw [List.flatMap_append, List.flatMap_singleton]
    exact hs.assignPort hnodup hport
  have hr : Placed source nodes t.claims r := by
    refine foldlM_history_nil (fun (done : List TopologyCalculation) s => Placed source nodes
      (t.ports.flatMap (·.claims) ++ done.map fun c => (c.nodeID, .calculation c.owners)) s) ?_ ?_
      hcalculations
    · intro done calculation s s' hs hcalculation
      rw [List.map_append, ← List.append_assoc]
      exact hs.assignCalculation hnodup hcalculation
    · rw [List.map_nil, List.append_nil]
      exact hs
  cases hunowned : unowned r with
  | some n =>
    rw [hunowned] at h
    cases h
  | none =>
    rw [hunowned] at h
    obtain rfl : r.nodes = nodes' := Except.ok.inj h
    refine ⟨hr.nodup, hr.suits, ?_, hr.placed⟩
    intro n hn hretired
    have hlisted := List.find?_eq_none.mp hunowned n hn
    simp only [hretired, Bool.not_false, Bool.true_and, Bool.and_eq_true, Bool.not_eq_true',
      decide_eq_false_iff_not, not_and, not_not] at hlisted
    by_cases howned : n.identifier ∈ r.owners
    · obtain ⟨o, ho, -⟩ := (hr.owners _).mp howned
      exact ⟨o, ho⟩
    · obtain ⟨o, ho, -⟩ := (hr.commands _).mp (hlisted howned)
      exact ⟨o, ho⟩

/-! ## The choice of the source does not matter to the checks -/

/-- Two nodes that differ in their notes only, and of which both or neither are read only. -/
structure Twin (n n' : Node) : Prop where
  bare : n.bare = n'.bare
  readOnly : readOnly n = readOnly n'

structure Similar (s s' : Assignment) : Prop where
  nodes : List.Forall₂ Twin s.nodes s'.nodes
  owners : s.owners = s'.owners
  devices : s.devices = s'.devices
  ports : s.ports = s'.ports
  commands : s.commands = s'.commands

theorem Twin.found {nodes nodes' : List Node} (h : List.Forall₂ Twin nodes nodes')
    {identifier : String} {n : Node} (hn : findNode nodes identifier = some n) :
    ∃ n', findNode nodes' identifier = some n' ∧ Twin n n' := by
  induction h with
  | nil => cases hn
  | @cons a b _ _ hab _ ih =>
    have hname : a.identifier = b.identifier := identifier_of_bare hab.bare
    rw [findNode, List.find?_cons] at hn
    rw [findNode, List.find?_cons, ← hname]
    cases heq : a.identifier == identifier with
    | true =>
      rw [heq] at hn
      exact ⟨b, rfl, Option.some.inj hn ▸ hab⟩
    | false =>
      rw [heq] at hn
      exact ih hn

theorem Twin.exists {nodes nodes' : List Node} (h : List.Forall₂ Twin nodes nodes') {n' : Node}
    (hn' : n' ∈ nodes') : ∃ n ∈ nodes, Twin n n' := by
  obtain ⟨i, hi, rfl⟩ := List.mem_iff_getElem.mp hn'
  have hi' : i < nodes.length := h.length_eq ▸ hi
  exact ⟨nodes[i], List.getElem_mem hi', h.get hi' hi⟩

theorem Twin.setNode {nodes nodes' : List Node} (h : List.Forall₂ Twin nodes nodes')
    {identifier : String} {f f' : Node → Node} (hf : ∀ n n', Twin n n' → Twin (f n) (f' n')) :
    List.Forall₂ Twin (setNode nodes identifier f) (setNode nodes' identifier f') := by
  unfold Addressing.setNode
  rw [List.forall₂_map_left_iff, List.forall₂_map_right_iff]
  refine h.imp ?_
  intro n n' hn
  rw [identifier_of_bare hn.bare]
  split_ifs
  · exact hf n n' hn
  · exact hn

/-- Nodes that have been given the same kind. -/
theorem readOnly_of_kind {n n' : Node} (h : n.bare = n'.bare) (hkind : n.kind = n'.kind) :
    readOnly n = readOnly n' := by
  have hclass : n.nodeClass = n'.nodeClass := of_bare (fun n => n.nodeClass) (fun _ => rfl) h
  have hwritable : n.writable = n'.writable := of_bare (fun n => n.writable) (fun _ => rfl) h
  rw [readOnly, readOnly, hclass, hwritable, hkind]

section

variable {source source' : Source} {s s' t : Assignment}

theorem Similar.assignCommand (h : Similar s s') {port : TopologyPort} {identifier : String}
    (hstep : assignCommand port s identifier = .ok t) :
    ∃ t', assignCommand port s' identifier = .ok t' ∧ Similar t t' := by
  unfold Addressing.assignCommand at hstep
  split at hstep
  · cases hstep
  · rename_i n hfound
    obtain ⟨n', hfound', htwin⟩ := Twin.found h.nodes hfound
    have hclass : n.nodeClass = n'.nodeClass :=
      of_bare (fun n => n.nodeClass) (fun _ => rfl) htwin.bare
    have hvariable : Catalog.validCommandVariable n.toCatalogNode =
        Catalog.validCommandVariable n'.toCatalogNode :=
      of_bare (fun n => Catalog.validCommandVariable n.toCatalogNode) (fun _ => rfl) htwin.bare
    have hmethod : Catalog.validCommandMethod n.toCatalogNode =
        Catalog.validCommandMethod n'.toCatalogNode :=
      of_bare (fun n => Catalog.validCommandMethod n.toCatalogNode) (fun _ => rfl) htwin.bare
    rw [hclass, hvariable, hmethod, h.commands] at hstep
    split_ifs at hstep with hseen hsend hcall
    obtain rfl := Except.ok.inj hstep
    simp only [Addressing.assignCommand, hfound', if_neg hseen, if_neg hsend, if_neg hcall]
    refine ⟨_, rfl, ⟨Twin.setNode h.nodes ?_, h.owners, h.devices, h.ports, rfl⟩⟩
    exact fun a b hab => ⟨hab.bare, readOnly_of_kind hab.bare rfl⟩

theorem Similar.assignPoint (h : Similar s s') {port : TopologyPort} {device : TopologyDevice}
    {identifier : String} (hstep : assignPoint source port device s identifier = .ok t) :
    ∃ t', assignPoint source' port device s' identifier = .ok t' ∧ Similar t t' := by
  unfold Addressing.assignPoint at hstep
  rw [h.owners] at hstep
  split_ifs at hstep with hseen
  split at hstep
  · cases hstep
  · rename_i n hfound
    obtain ⟨n', hfound', htwin⟩ := Twin.found h.nodes hfound
    rw [htwin.readOnly] at hstep
    split_ifs at hstep with hreadOnly
    obtain rfl := Except.ok.inj hstep
    simp only [Addressing.assignPoint, if_neg hseen, hfound', if_neg hreadOnly]
    refine ⟨_, rfl, ⟨Twin.setNode h.nodes ?_, rfl, h.devices, h.ports, h.commands⟩⟩
    exact fun a b hab => ⟨hab.bare, hab.readOnly⟩

theorem Similar.assignDevice (h : Similar s s') {port : TopologyPort} {device : TopologyDevice}
    (hstep : assignDevice source port s device = .ok t) :
    ∃ t', assignDevice source' port s' device = .ok t' ∧ Similar t t' := by
  simp only [Addressing.assignDevice] at hstep ⊢
  rw [h.devices] at hstep
  split_ifs at hstep with hname hseen
  rw [if_neg hname, if_neg hseen]
  have hstart : Similar { s with devices := ⟨port.portID, device.deviceID⟩ :: s'.devices }
      { s' with devices := ⟨port.portID, device.deviceID⟩ :: s'.devices } :=
    ⟨h.nodes, h.owners, rfl, h.ports, h.commands⟩
  exact foldlM_simulation (f := Addressing.assignPoint source port device)
    (g := Addressing.assignPoint source' port device) Similar
    (fun _ _ _ _ hs hr => hs.assignPoint hr) hstart hstep

theorem Similar.assignPort (h : Similar s s') {port : TopologyPort}
    (hstep : assignPort source s port = .ok t) :
    ∃ t', assignPort source' s' port = .ok t' ∧ Similar t t' := by
  unfold Addressing.assignPort at hstep ⊢
  rw [h.ports] at hstep
  split_ifs at hstep with hnames hseen
  rw [if_neg hnames, if_neg hseen]
  obtain ⟨m, hcommands, hdevices⟩ := bind_eq_ok_iff.mp hstep
  have hstart : Similar { s with ports := port.portID :: s'.ports }
      { s' with ports := port.portID :: s'.ports } :=
    ⟨h.nodes, h.owners, h.devices, rfl, h.commands⟩
  obtain ⟨m', hm', hmid⟩ :=
    foldlM_simulation (f := Addressing.assignCommand port) (g := Addressing.assignCommand port)
      Similar (fun _ _ _ _ hs hr => hs.assignCommand hr) hstart hcommands
  obtain ⟨t', ht', hend⟩ :=
    foldlM_simulation (f := Addressing.assignDevice source port)
      (g := Addressing.assignDevice source' port) Similar
      (fun _ _ _ _ hs hr => hs.assignDevice hr) hmid hdevices
  exact ⟨t', bind_eq_ok_iff.mpr ⟨m', hm', ht'⟩, hend⟩

theorem Similar.assignCalculation (h : Similar s s') {calculation : TopologyCalculation}
    (hstep : assignCalculation source s calculation = .ok t) :
    ∃ t', assignCalculation source' s' calculation = .ok t' ∧ Similar t t' := by
  unfold Addressing.assignCalculation at hstep
  split at hstep
  · cases hstep
  · rename_i n hfound
    obtain ⟨n', hfound', htwin⟩ := Twin.found h.nodes hfound
    rw [htwin.readOnly, h.owners, h.devices] at hstep
    split_ifs at hstep with hreadOnly hseen howners
    obtain rfl := Except.ok.inj hstep
    simp only [Addressing.assignCalculation, hfound', if_neg hreadOnly, if_neg hseen, if_neg howners]
    refine ⟨_, rfl, ⟨Twin.setNode h.nodes ?_, rfl, rfl, h.ports, h.commands⟩⟩
    intro a b hab
    match calculation.owners with
    | [] => exact ⟨hab.bare, readOnly_of_kind hab.bare rfl⟩
    | [_] => exact ⟨hab.bare, readOnly_of_kind hab.bare rfl⟩
    | _ :: _ :: _ => exact ⟨hab.bare, readOnly_of_kind hab.bare rfl⟩

theorem Similar.unowned (h : Similar s s') (hs : unowned s = none) : unowned s' = none := by
  rw [Addressing.unowned, List.find?_eq_none] at hs ⊢
  intro n' hn'
  obtain ⟨n, hn, htwin⟩ := Twin.exists h.nodes hn'
  have := hs n hn
  rwa [identifier_of_bare htwin.bare, h.owners, h.commands,
    of_bare (fun n => n.retired) (fun _ => rfl) htwin.bare] at this

end

/-- A topology that is accepted with some nodes is accepted with their twins for any source. -/
theorem assignTopology_twins {source : Source} (source' : Source) {nodes nodes' out : List Node}
    {t : SourceTopology} (h : List.Forall₂ Twin nodes nodes')
    (hout : assignTopology source nodes t = .ok out) :
    ∃ out', assignTopology source' nodes' t = .ok out' := by
  unfold assignTopology at hout ⊢
  split_ifs at hout with hversion
  rw [if_neg hversion]
  obtain ⟨s, hports, hout⟩ := bind_eq_ok_iff.mp hout
  obtain ⟨r, hcalculations, hout⟩ := bind_eq_ok_iff.mp hout
  have hstart : Similar ⟨nodes, [], [], [], []⟩ ⟨nodes', [], [], [], []⟩ := ⟨h, rfl, rfl, rfl, rfl⟩
  obtain ⟨s', hs', hmid⟩ :=
    foldlM_simulation (f := assignPort source) (g := assignPort source') Similar
      (fun _ _ _ _ hs hr => hs.assignPort hr) hstart hports
  obtain ⟨r', hr', hend⟩ :=
    foldlM_simulation (f := assignCalculation source) (g := assignCalculation source') Similar
      (fun _ _ _ _ hs hr => hs.assignCalculation hr) hmid hcalculations
  cases hunowned : unowned r with
  | some n =>
    rw [hunowned] at hout
    cases hout
  | none =>
    refine ⟨r'.nodes, bind_eq_ok_iff.mpr ⟨s', hs', bind_eq_ok_iff.mpr ⟨r', hr', ?_⟩⟩⟩
    rw [hend.unowned hunowned]

/-! ## Assignment as a whole -/

theorem assignCatalogGroups_ok_iff {source : Source} {raw catalog : SourceCatalog}
    {t : SourceTopology} (ht : raw.topology = some t) :
    assignCatalogGroups source raw = .ok catalog ↔
      (raw.nodes.map (·.identifier)).Nodup ∧ ∃ nodes,
        assignTopology source (raw.nodes.map (annotate source (some t))) t = .ok nodes ∧
        catalog = { raw with groupID := source.groupID, nodes := nodes } := by
  simp only [assignCatalogGroups, ht]
  split_ifs with hnodup
  · cases hnodes : assignTopology source (raw.nodes.map (annotate source (some t))) t with
    | error e =>
      constructor
      · intro h
        cases h
      · rintro ⟨-, _, h, -⟩
        cases h
    | ok nodes =>
      constructor
      · intro h
        exact ⟨hnodup, nodes, rfl, (Except.ok.inj h).symm⟩
      · rintro ⟨-, _, h, rfl⟩
        rw [Except.ok.inj h]
  · constructor
    · intro h
      cases h
    · exact fun h => absurd h.1 hnodup

section

variable {source source' : Source} {claims : List Claim} {topology : Option SourceTopology}
  {n : Node}

theorem annotate_retired (h : n.retired = true) : annotate source topology n = n := if_pos h

theorem groupID_annotate (h : n.retired = false) :
    (annotate source topology n).groupID = source.groupID := by
  rw [annotate, if_neg (by simp [h])]

theorem Ownership.place_place (o : Ownership) :
    o.place source (o.place source' n) = o.place source n := by
  match o with
  | .command _ => rfl
  | .device _ => rfl
  | .calculation [] => rfl
  | .calculation [_] => rfl
  | .calculation (_ :: _ :: _) => rfl

/-- The last assignment wins, also at a retired node. -/
theorem place_place : place source claims (place source' claims n) = place source claims n := by
  cases hfind : claims.find? (·.1 == n.identifier) with
  | none =>
    have hself : place source' claims n = n := by rw [place, hfind]
    rw [hself]
  | some claim =>
    have hplaced : place source' claims n = claim.2.place source' n := by rw [place, hfind]
    have hname : (claim.2.place source' n).identifier = n.identifier :=
      identifier_of_bare (Ownership.bare_place _ _ _)
    rw [hplaced, place, place, hname, hfind]
    exact Ownership.place_place _

theorem annotate_place_annotate :
    place source claims
        (annotate source topology (place source' claims (annotate source' topology n))) =
      place source claims (annotate source topology n) := by
  cases hretired : n.retired with
  | false =>
    have hbare : n.bare = (place source' claims (annotate source' topology n)).bare := by simp
    rw [← annotate_of_bare hbare hretired]
  | true =>
    have hplaced : (place source' claims n).retired = true :=
      (of_bare (fun n => n.retired) (fun _ => rfl) (bare_place source' claims n)).trans hretired
    rw [annotate_retired hretired, annotate_retired hretired, annotate_retired hplaced, place_place]

theorem twin_annotate : Twin (annotate source topology n) (annotate source' topology n) := by
  refine ⟨by simp, ?_⟩
  cases hretired : n.retired with
  | false =>
    refine readOnly_of_kind (by simp) ?_
    simp only [annotate, hretired, Bool.false_eq_true, if_false]
  | true => rw [annotate_retired hretired, annotate_retired hretired]

theorem Ownership.Suits.readOnly_place {o : Ownership} (h : o.Suits n) :
    readOnly (o.place source n) = readOnly n := by
  match o with
  | .command _ =>
    have hbefore : readOnly n = false := by
      rw [← Bool.not_eq_true]
      exact fun hn => h (readable_of_readOnly hn)
    rw [hbefore]
    simp [readOnly, Ownership.place]
  | .device _ => rfl
  | .calculation owners =>
    have hafter : ∀ m : Node, m.nodeClass = n.nodeClass → m.writable = n.writable →
        m.kind = "calculation" → readOnly m = true := by
      intro m hclass hwritable hkind
      obtain ⟨hn, hn'⟩ := readable_of_readOnly h
      simp [readOnly, hclass, hwritable, hkind, hn, hn']
    rw [show readOnly n = true from h]
    match owners with
    | [] => exact hafter _ rfl rfl rfl
    | [_] => exact hafter _ rfl rfl rfl
    | _ :: _ :: _ => exact hafter _ rfl rfl rfl

/-- Assigning once more changes no check. -/
theorem twin_reassign
    (hsuits : ∀ o, (n.identifier, o) ∈ claims → o.Suits (annotate source topology n)) :
    Twin (annotate source topology n)
      (annotate source' topology (place source claims (annotate source topology n))) := by
  cases hretired : n.retired with
  | false =>
    have hbare : n.bare = (place source claims (annotate source topology n)).bare := by simp
    rw [← annotate_of_bare hbare hretired]
    exact twin_annotate
  | true =>
    have hplaced : (place source claims n).retired = true :=
      (of_bare (fun n => n.retired) (fun _ => rfl) (bare_place source claims n)).trans hretired
    rw [annotate_retired hretired] at hsuits ⊢
    rw [annotate_retired hplaced]
    refine ⟨by simp, ?_⟩
    unfold place
    split
    · rename_i claim hfind
      have hname : claim.1 = n.identifier := by simpa using List.find?_some hfind
      exact (hsuits claim.2 (hname ▸ List.mem_of_find?_eq_some hfind)).readOnly_place.symm
    · rfl

/-- The group written into a node that was in the group of the source. -/
theorem Ownership.groupID_place {o : Ownership} (h : n.groupID = source.groupID) :
    (o.place source n).groupID = o.group source := by
  match o with
  | .command _ => exact h
  | .device _ => rfl
  | .calculation [] => exact h
  | .calculation [_] => rfl
  | .calculation (_ :: _ :: _) => exact h

end

theorem identifiers_annotate (source : Source) (topology : Option SourceTopology) (nodes : List Node) :
    (nodes.map (annotate source topology)).map (·.identifier) = nodes.map (·.identifier) := by
  rw [List.map_map]
  exact List.map_congr_left fun n _ => identifier_of_bare (bare_annotate source topology n)

theorem identifiers_place (source : Source) (claims : List Claim) (nodes : List Node) :
    (nodes.map (place source claims)).map (·.identifier) = nodes.map (·.identifier) := by
  rw [List.map_map]
  exact List.map_congr_left fun n _ => identifier_place source claims n

/-- An accepted catalog is accepted for every other source, before and after. -/
theorem assignCatalogGroups_reassign {source : Source} {raw catalog : SourceCatalog}
    {t : SourceTopology} (ht : raw.topology = some t)
    (h : assignCatalogGroups source raw = .ok catalog) (rebound : Source) :
    assignCatalogGroups rebound catalog = assignCatalogGroups rebound raw := by
  obtain ⟨hnodup, nodes, hnodes, rfl⟩ := (assignCatalogGroups_ok_iff ht).mp h
  have hannotated : ∀ s, ((raw.nodes.map (annotate s (some t))).map (·.identifier)).Nodup := by
    intro s
    rwa [identifiers_annotate]
  obtain ⟨hclaims, hsuits, -, rfl⟩ := placed_of_assignTopology (hannotated source) hnodes
  let placed := (raw.nodes.map (annotate source (some t))).map (place source t.claims)
  have hplaced : (placed.map (·.identifier)).Nodup := by
    rw [identifiers_place]
    exact hannotated source
  -- the checks pass before and after
  have hbefore : List.Forall₂ Twin (raw.nodes.map (annotate source (some t)))
      (raw.nodes.map (annotate rebound (some t))) := by
    rw [List.forall₂_map_left_iff, List.forall₂_map_right_iff, List.forall₂_same]
    exact fun n _ => twin_annotate
  have hafter : List.Forall₂ Twin (raw.nodes.map (annotate source (some t)))
      (placed.map (annotate rebound (some t))) := by
    rw [List.map_map, List.map_map, List.forall₂_map_left_iff, List.forall₂_map_right_iff,
      List.forall₂_same]
    intro n hn
    refine twin_reassign ?_
    intro o ho
    obtain ⟨n', hn', hname, hsuits'⟩ := hsuits _ ho
    obtain rfl : n' = annotate source (some t) n :=
      List.inj_on_of_nodup_map (hannotated source) hn' (List.mem_map_of_mem hn)
        (hname.trans (identifier_of_bare (bare_annotate _ _ _)).symm)
    exact hsuits'
  obtain ⟨out, hout⟩ := assignTopology_twins rebound hbefore hnodes
  obtain ⟨again, hagain⟩ := assignTopology_twins rebound hafter hnodes
  have hsame : again = out := by
    have hannotated' : ((placed.map (annotate rebound (some t))).map (·.identifier)).Nodup := by
      rwa [identifiers_annotate]
    rw [(placed_of_assignTopology (hannotated rebound) hout).2.2.2,
      (placed_of_assignTopology hannotated' hagain).2.2.2, List.map_map, List.map_map, List.map_map,
      List.map_map]
    exact List.map_congr_left fun n _ => annotate_place_annotate
  have htopology : ({ raw with groupID := source.groupID, nodes := placed } : SourceCatalog).topology =
      some t := ht
  rw [(assignCatalogGroups_ok_iff ht).mpr ⟨hnodup, out, hout, rfl⟩]
  exact (assignCatalogGroups_ok_iff htopology).mpr ⟨hplaced, again, hagain, by rw [hsame]⟩

/-- An accepted topology owns every node that is not retired once; its owner decides the group,
nothing but the notes changes, and what was noted before does not matter. -/
theorem assignCatalogGroups_exact (source : Source) (raw catalog : SourceCatalog)
    (t : SourceTopology) (ht : raw.topology = some t)
    (h : assignCatalogGroups source raw = .ok catalog) :
    WellFormed t.ports ∧ (t.claims.map Prod.fst).Nodup ∧
      (∀ n ∈ catalog.nodes, n.retired = false →
        ∃ o, (n.identifier, o) ∈ t.claims ∧ (∀ o', (n.identifier, o') ∈ t.claims → o' = o) ∧
          n.groupID = o.group source) ∧
      catalog.nodes.map Node.bare = raw.nodes.map Node.bare ∧
      ∀ rebound, assignCatalogGroups rebound catalog = assignCatalogGroups rebound raw := by
  have hreassign := assignCatalogGroups_reassign ht h
  obtain ⟨hnodup, nodes, hnodes, rfl⟩ := (assignCatalogGroups_ok_iff ht).mp h
  have hannotated : ((raw.nodes.map (annotate source (some t))).map (·.identifier)).Nodup := by
    rwa [identifiers_annotate]
  obtain ⟨hclaims, -, howned, rfl⟩ := placed_of_assignTopology hannotated hnodes
  refine ⟨wellFormed_of_assigned h ht, hclaims, ?_, ?_, hreassign⟩
  · intro n hn hretired
    obtain ⟨o, ho⟩ := howned n hn hretired
    refine ⟨o, ho, ?_, ?_⟩
    · intro o' ho'
      exact congrArg Prod.snd (List.inj_on_of_nodup_map hclaims ho' ho rfl)
    · obtain ⟨a, ha, rfl⟩ := List.mem_map.mp hn
      obtain ⟨n, -, rfl⟩ := List.mem_map.mp ha
      have hbare : (place source t.claims (annotate source (some t) n)).bare = n.bare := by simp
      rw [of_bare (fun n => n.retired) (fun _ => rfl) hbare] at hretired
      rw [identifier_place] at ho
      rw [place_of_mem hclaims ho]
      exact Ownership.groupID_place (groupID_annotate hretired)
  · rw [List.map_map, List.map_map]
    exact List.map_congr_left fun n _ => by simp

/-! ## A source with one device -/

def ownedNode (identifier : String) (nodeClass : Catalog.NodeClass) (writable : Bool)
    (arguments results : List Catalog.Argument) : Node :=
  ⟨⟨"old", "", identifier, nodeClass, .string, -1, writable, arguments, results, false⟩, "urn", "", ""⟩

def ownedCatalog : SourceCatalog where
  sourceID := "S"
  groupID := "old"
  state := .ready
  nodes :=
    [ownedNode "C_Send" .variable true [] [],
      ownedNode "C_SendCommand" .method false [⟨"HexData", .string, -1⟩] [⟨"Result", .string, -1⟩],
      ownedNode "D" .variable false [] [], ownedNode "E" .variable false [] []]
  topology :=
    some ⟨1, [⟨"p", "C", "C_Send", "C_SendCommand", [⟨"1", 1, ["D"]⟩]⟩], [⟨"E", [⟨"p", "1"⟩]⟩]⟩

theorem assignCatalogGroups_exact_sample :
    ∃ catalog, assignCatalogGroups ⟨"S", "G", [⟨"H", "p", "1"⟩], [], true, .ready⟩ ownedCatalog =
        .ok catalog ∧
      catalog.nodes.map (·.groupID) = ["G", "G", "H", "H"] ∧
      assignCatalogGroups ⟨"S", "G", [], [], true, .ready⟩ catalog =
        assignCatalogGroups ⟨"S", "G", [], [], true, .ready⟩ ownedCatalog :=
  ⟨_, rfl, rfl, (assignCatalogGroups_exact ⟨"S", "G", [⟨"H", "p", "1"⟩], [], true, .ready⟩ ownedCatalog
    _ _ rfl rfl).2.2.2.2 _⟩

end RcdServer.Addressing
