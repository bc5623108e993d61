import RcdServer.Catalog.Index

/-!
# Exactness of the conflicts

Whatever the order of its loops, `validateCatalogs` puts the same sources in conflict: those with
an identifier in several groups, and among the others those that are faulty or clash. The sources
that are left agree on the group and the shape of what they share.
-/
namespace RcdServer.Catalog

open Lib Lib.Text

/-! ## The conflicts of a map -/

/-- The map is keyed by the sources, and they and their groups have names. -/
structure Keyed (catalogs : Map String SourceCatalog) : Prop where
  key : ∀ s c, catalogs.lookup s = some c → c.sourceID = s
  named : ∀ s c, catalogs.lookup s = some c → trim c.sourceID ≠ "" ∧ trim c.groupID ≠ ""

/-- The identifier, without the space around it, stands in the group. -/
def Occurs (catalogs : Map String SourceCatalog) (i g : String) : Prop :=
  ∃ s c, catalogs.lookup s = some c ∧ ∃ n ∈ c.nodes, trim n.identifier = i ∧ c.nodeGroup n = g

def CrossGroup (catalogs : Map String SourceCatalog) (c : SourceCatalog) : Prop :=
  ∃ n ∈ c.nodes, trim n.identifier ≠ "" ∧ ∃ g g', Occurs catalogs (trim n.identifier) g ∧
    Occurs catalogs (trim n.identifier) g' ∧ g ≠ g'

/-- A valid first node has another shape than that of another source set apart from none. -/
def ShapeClash (catalogs : Map String SourceCatalog) (c : SourceCatalog) : Prop :=
  ∃ i n, First c i n ∧ ∃ s c', catalogs.lookup s = some c' ∧ ¬ CrossGroup catalogs c' ∧
    ∃ n', First c' i n' ∧ sameShape n n' = false

def InConflict (catalogs : Map String SourceCatalog) (c : SourceCatalog) : Prop :=
  CrossGroup catalogs c ∨ Faulty c ∨ ShapeClash catalogs c

/-- What the result says about the catalogs. -/
structure Exact (catalogs : Map String SourceCatalog) (index : CatalogIndex)
    (states : String → Option CatalogState) : Prop where
  conflict : ∀ s c, catalogs.lookup s = some c →
    (states s = some .conflict ↔ InConflict catalogs c)
  clear : ∀ s c, catalogs.lookup s = some c → ¬ InConflict catalogs c →
    states s = some (startState (resetConflict c))
  group : ∀ s c s' c', catalogs.lookup s = some c → catalogs.lookup s' = some c' →
    states s ≠ some .conflict → states s' ≠ some .conflict →
    ∀ n ∈ c.nodes, ∀ n' ∈ c'.nodes, trim n.identifier = trim n'.identifier →
      c.nodeGroup n = c'.nodeGroup n'
  shape : ∀ s c s' c', catalogs.lookup s = some c → catalogs.lookup s' = some c' →
    states s ≠ some .conflict → states s' ≠ some .conflict →
    ∀ n ∈ c.nodes, ∀ n' ∈ c'.nodes, n.identifier = n'.identifier → sameShape n n' = true
  offered : ∀ i g, index.groupByNode i = some g ↔ ∃ s c, catalogs.lookup s = some c ∧
    states s ≠ some .conflict ∧ ∃ n ∈ c.nodes, n.identifier = i ∧ c.nodeGroup n = g
  points : ∀ p ∈ index.points, index.groupByNode p.node.identifier = some p.groupID

/-! ## Catalogs in the working map -/

theorem resetConflict_eq (c : SourceCatalog) :
    ∃ state, state ≠ .conflict ∧ resetConflict c = { c with state := state } := by
  unfold resetConflict
  split_ifs with hstate hnodes
  · exact ⟨.discovering, by decide, rfl⟩
  · exact ⟨.cached, by decide, rfl⟩
  · exact ⟨c.state, hstate, rfl⟩

theorem startState_reset (c : SourceCatalog) : startState (resetConflict c) ≠ .conflict := by
  obtain ⟨state, hstate, heq⟩ := resetConflict_eq c
  rw [heq, startState]
  split_ifs
  · decide
  · exact hstate

theorem nodeGroup_reset (c : SourceCatalog) (n : CatalogNode) :
    (resetConflict c).nodeGroup n = c.nodeGroup n := by
  obtain ⟨state, -, heq⟩ := resetConflict_eq c
  rw [heq]
  rfl

theorem nodes_reset (c : SourceCatalog) : (resetConflict c).nodes = c.nodes := by
  obtain ⟨state, -, heq⟩ := resetConflict_eq c
  rw [heq]

theorem first_reset {c : SourceCatalog} {i : String} {n : CatalogNode} :
    First (resetConflict c) i n ↔ First c i n := by
  obtain ⟨state, -, heq⟩ := resetConflict_eq c
  rw [heq]
  exact Iff.rfl

theorem faulty_reset {c : SourceCatalog} : Faulty (resetConflict c) ↔ Faulty c := by
  obtain ⟨state, -, heq⟩ := resetConflict_eq c
  rw [heq]
  exact Iff.rfl

/-- The sources of a list drawn from a map keyed by them are distinct. -/
theorem nodup_sources {f : String → Option SourceCatalog} (hf : ∀ s c, f s = some c → c.sourceID = s)
    {keys : List String} (hkeys : keys.Nodup) : ((keys.filterMap f).map (·.sourceID)).Nodup := by
  rw [List.map_filterMap]
  apply hkeys.filterMap
  intro s s' t hs hs'
  obtain ⟨c, hc, rfl⟩ := Option.map_eq_some_iff.mp hs
  obtain ⟨c', hc', heq⟩ := Option.map_eq_some_iff.mp hs'
  rw [← hf s c hc, ← hf s' c' hc', heq]

section

variable (ranges ranges' : Ranges) {catalogs : Map String SourceCatalog}

/-- The map after the conflicts of the last time are taken back. -/
def workingOf (catalogs : Map String SourceCatalog) : Map String SourceCatalog :=
  catalogs.mapValues fun _ c => resetConflict c

def crossOf (catalogs : Map String SourceCatalog) : List (List String × CatalogConflictDetail) :=
  crossConflicts ranges (collectOwners ranges (workingOf catalogs))

def setApart (catalogs : Map String SourceCatalog) : List String :=
  (crossOf ranges catalogs).flatMap (·.1)

def united (catalogs : Map String SourceCatalog) : List SourceCatalog :=
  withoutCrossConflicts ranges (workingOf catalogs) (setApart ranges catalogs)

def settled (catalogs : Map String SourceCatalog) (u : CatalogUnion) : Map String SourceCatalog :=
  takeStates (isolate (workingOf catalogs) (setApart ranges catalogs)) u

theorem lookup_workingOf (s : String) :
    (workingOf catalogs).lookup s = (catalogs.lookup s).map resetConflict :=
  Map.lookup_mapValues

theorem occurs_iff {i g : String} :
    (∃ s, (i, g, s) ∈ collectOwners ranges (workingOf catalogs)) ↔ i ≠ "" ∧ Occurs catalogs i g := by
  constructor
  · rintro ⟨s, hmem⟩
    obtain ⟨d, hd, n, hn, hname, rfl, rfl⟩ := (mem_collectOwners ranges).mp hmem
    rw [lookup_workingOf] at hd
    obtain ⟨c, hc, rfl⟩ := Option.map_eq_some_iff.mp hd
    rw [nodes_reset] at hn
    exact ⟨hname, s, c, hc, n, hn, rfl, (nodeGroup_reset c n).symm⟩
  · rintro ⟨hname, s, c, hc, n, hn, rfl, rfl⟩
    refine ⟨s, (mem_collectOwners ranges).mpr ⟨resetConflict c, ?_, n, ?_, hname, rfl, ?_⟩⟩
    · rw [lookup_workingOf, hc]
      rfl
    · rwa [nodes_reset]
    · exact nodeGroup_reset c n

theorem mem_setApart {s : String} {c : SourceCatalog} (hc : catalogs.lookup s = some c) :
    s ∈ setApart ranges catalogs ↔ CrossGroup catalogs c := by
  have hcrosses : ∀ i, Crosses (collectOwners ranges (workingOf catalogs)) i ↔
      i ≠ "" ∧ ∃ g g', Occurs catalogs i g ∧ Occurs catalogs i g' ∧ g ≠ g' := by
    intro i
    constructor
    · rintro ⟨g, s, g', s', hs, hs', hne⟩
      obtain ⟨hname, hg⟩ := (occurs_iff ranges).mp ⟨s, hs⟩
      obtain ⟨-, hg'⟩ := (occurs_iff ranges).mp ⟨s', hs'⟩
      exact ⟨hname, g, g', hg, hg', hne⟩
    · rintro ⟨hname, g, g', hg, hg', hne⟩
      obtain ⟨s, hs⟩ := (occurs_iff ranges).mpr ⟨hname, hg⟩
      obtain ⟨s', hs'⟩ := (occurs_iff ranges).mpr ⟨hname, hg'⟩
      exact ⟨g, s, g', s', hs, hs', hne⟩
  have hlook : (workingOf catalogs).lookup s = some (resetConflict c) := by
    rw [lookup_workingOf, hc]
    rfl
  rw [setApart, crossOf, mem_crossSources]
  constructor
  · rintro ⟨i, g, hmem, hcross⟩
    obtain ⟨d, hd, n, hn, hname, rfl, -⟩ := (mem_collectOwners ranges).mp hmem
    obtain rfl := Option.some.inj (hd.symm.trans hlook)
    rw [nodes_reset] at hn
    exact ⟨n, hn, ((hcrosses _).mp hcross)⟩
  · rintro ⟨n, hn, hcross⟩
    refine ⟨trim n.identifier, c.nodeGroup n, ?_, (hcrosses _).mpr hcross⟩
    refine (mem_collectOwners ranges).mpr ⟨_, hlook, n, ?_, hcross.1, rfl, nodeGroup_reset c n⟩
    rwa [nodes_reset]

theorem setApart_iff (s : String) :
    s ∈ setApart ranges catalogs ↔ s ∈ setApart ranges' catalogs := by
  have howners : (collectOwners ranges (workingOf catalogs)).Perm
      (collectOwners ranges' (workingOf catalogs)) := collectOwners_perm ranges ranges'
  rw [setApart, setApart, crossOf, crossOf, mem_crossSources, mem_crossSources]
  simp only [Crosses, howners.mem_iff]

/-! ## The sources that are united -/

theorem mem_united {d : SourceCatalog} : d ∈ united ranges catalogs ↔
    ∃ s c, catalogs.lookup s = some c ∧ ¬ CrossGroup catalogs c ∧ d = resetConflict c := by
  rw [united, withoutCrossConflicts, List.mem_filterMap]
  constructor
  · rintro ⟨s, -, hs⟩
    split_ifs at hs with hapart
    rw [lookup_workingOf] at hs
    obtain ⟨c, hc, rfl⟩ := Option.map_eq_some_iff.mp hs
    exact ⟨s, c, hc, fun hcross => hapart ((mem_setApart ranges hc).mpr hcross), rfl⟩
  · rintro ⟨s, c, hc, hcross, rfl⟩
    have hlook : (workingOf catalogs).lookup s = some (resetConflict c) := by
      rw [lookup_workingOf, hc]
      rfl
    have hkey : s ∈ (workingOf catalogs).keys := AList.mem_keys.mpr (Map.mem_iff.mpr ⟨_, hlook⟩)
    refine ⟨s, (ranges.perm _ _).mem_iff.mpr hkey, ?_⟩
    rw [if_neg fun hin => hcross ((mem_setApart ranges hc).mp hin), hlook]

theorem sourceID_reset (c : SourceCatalog) : (resetConflict c).sourceID = c.sourceID := by
  obtain ⟨state, -, heq⟩ := resetConflict_eq c
  rw [heq]

theorem groupID_reset (c : SourceCatalog) : (resetConflict c).groupID = c.groupID := by
  obtain ⟨state, -, heq⟩ := resetConflict_eq c
  rw [heq]

/-- Nodes of sources that are not set apart have the group of their identifier. -/
theorem group_of_uncrossed {s s' : String} {c c' : SourceCatalog}
    (hc : catalogs.lookup s = some c) (hc' : catalogs.lookup s' = some c')
    (hcross : ¬ CrossGroup catalogs c) {n n' : CatalogNode} (hn : n ∈ c.nodes) (hn' : n' ∈ c'.nodes)
    (hname : trim n.identifier ≠ "") (hsame : trim n.identifier = trim n'.identifier) :
    c.nodeGroup n = c'.nodeGroup n' := by
  by_contra hne
  exact hcross ⟨n, hn, hname, c.nodeGroup n, c'.nodeGroup n', ⟨s, c, hc, n, hn, rfl, rfl⟩,
    ⟨s', c', hc', n', hn', hsame.symm, rfl⟩, hne⟩

theorem sound_united (h : Keyed catalogs) : Sound (united ranges catalogs) where
  named := by
    intro d hd
    obtain ⟨s, c, hc, -, rfl⟩ := (mem_united ranges).mp hd
    rw [sourceID_reset, groupID_reset]
    exact h.named s c hc
  distinct := by
    apply nodup_sources
    · intro s d hs
      split_ifs at hs
      rw [lookup_workingOf] at hs
      obtain ⟨c, hc, rfl⟩ := Option.map_eq_some_iff.mp hs
      rw [sourceID_reset, h.key s c hc]
    · exact (ranges.perm _ _).nodup_iff.mpr (AList.keys_nodup _)
  consistent := by
    intro d hd n hn d' hd' n' hn' hname hsame
    obtain ⟨s, c, hc, hcross, rfl⟩ := (mem_united ranges).mp hd
    obtain ⟨s', c', hc', -, rfl⟩ := (mem_united ranges).mp hd'
    rw [nodes_reset] at hn hn'
    rw [nodeGroup_reset, nodeGroup_reset]
    exact group_of_uncrossed hc hc' hcross hn hn' hname (by rw [hsame])

theorem united_perm : (united ranges catalogs).Perm (united ranges' catalogs) := by
  have hkeys : (ranges.visit .isolate (workingOf catalogs).keys).Perm
      (ranges'.visit .isolate (workingOf catalogs).keys) :=
    (ranges.perm _ _).trans (ranges'.perm _ _).symm
  have hsame : (fun s => if s ∈ setApart ranges catalogs then none else
      (workingOf catalogs).lookup s) =
      fun s => if s ∈ setApart ranges' catalogs then none else (workingOf catalogs).lookup s := by
    funext s
    simp only [setApart_iff ranges ranges' s]
  unfold united withoutCrossConflicts
  rw [hsame]
  exact hkeys.filterMap _

theorem implicated_united {c : SourceCatalog} (hcross : ¬ CrossGroup catalogs c) :
    Implicated (united ranges catalogs) (resetConflict c) ↔ InConflict catalogs c := by
  unfold Implicated InConflict Clashing ShapeClash
  rw [faulty_reset]
  simp only [hcross, false_or, first_reset]
  apply or_congr_right
  apply exists_congr
  intro i
  apply exists_congr
  intro n
  apply and_congr_right
  intro _
  constructor
  · rintro ⟨d, hd, n', hfirst, hshape⟩
    obtain ⟨s', c', hc', hcross', rfl⟩ := (mem_united ranges).mp hd
    exact ⟨s', c', hc', hcross', n', first_reset.mp hfirst, hshape⟩
  · rintro ⟨s', c', hc', hcross', n', hfirst, hshape⟩
    exact ⟨resetConflict c', (mem_united ranges).mpr ⟨s', c', hc', hcross', rfl⟩, n',
      first_reset.mpr hfirst, hshape⟩

/-! ## The states -/

theorem settled_conflict (h : Keyed catalogs) {u : CatalogUnion}
    (hu : Built (united ranges catalogs) u) {s : String} {c : SourceCatalog}
    (hc : catalogs.lookup s = some c) (hin : InConflict catalogs c) :
    (settled ranges catalogs u).lookup s = some { c with state := .conflict } := by
  obtain ⟨state, -, heq⟩ := resetConflict_eq c
  have hs : (resetConflict c).sourceID = s := (sourceID_reset c).trans (h.key s c hc)
  rw [settled, takeStates, Map.lookup_mapValues, isolate, Map.lookup_mapValues, lookup_workingOf, hc]
  simp only [Option.map_some]
  by_cases hcross : CrossGroup catalogs c
  · have habsent : s ∉ (united ranges catalogs).map (·.sourceID) := by
      intro hmem
      obtain ⟨d, hd, hds⟩ := List.mem_map.mp hmem
      obtain ⟨s', c', hc', hcross', rfl⟩ := (mem_united ranges).mp hd
      rw [sourceID_reset, h.key s' c' hc'] at hds
      subst hds
      obtain rfl := Option.some.inj (hc.symm.trans hc')
      exact hcross' hcross
    rw [hu.absent s habsent, if_pos ((mem_setApart ranges hc).mpr hcross), heq]
  · have hmem : resetConflict c ∈ united ranges catalogs :=
      (mem_united ranges).mpr ⟨s, c, hc, hcross, rfl⟩
    have hstate := hu.conflict _ hmem ((implicated_united ranges hcross).mpr hin)
    rw [hs] at hstate
    rw [hstate, if_neg fun hapart => hcross ((mem_setApart ranges hc).mp hapart), heq]

theorem settled_clear (h : Keyed catalogs) {u : CatalogUnion}
    (hu : Built (united ranges catalogs) u) {s : String} {c : SourceCatalog}
    (hc : catalogs.lookup s = some c) (hout : ¬ InConflict catalogs c) :
    (settled ranges catalogs u).lookup s =
      some { c with state := startState (resetConflict c) } := by
  obtain ⟨state, -, heq⟩ := resetConflict_eq c
  have hs : (resetConflict c).sourceID = s := (sourceID_reset c).trans (h.key s c hc)
  have hcross : ¬ CrossGroup catalogs c := fun hcross => hout (.inl hcross)
  have hmem : resetConflict c ∈ united ranges catalogs :=
    (mem_united ranges).mpr ⟨s, c, hc, hcross, rfl⟩
  have hstate := hu.clear _ hmem fun hin => hout ((implicated_united ranges hcross).mp hin)
  rw [hs] at hstate
  rw [settled, takeStates, Map.lookup_mapValues, isolate, Map.lookup_mapValues, lookup_workingOf, hc]
  simp only [Option.map_some]
  rw [hstate, if_neg fun hapart => hcross ((mem_setApart ranges hc).mp hapart), heq]

theorem settled_none {u : CatalogUnion} {s : String} (hs : catalogs.lookup s = none) :
    (settled ranges catalogs u).lookup s = none := by
  rw [settled, takeStates, Map.lookup_mapValues, isolate, Map.lookup_mapValues, lookup_workingOf, hs]
  rfl

theorem settled_eq (u : CatalogUnion) : settled ranges catalogs u = settled ranges' catalogs u := by
  unfold settled isolate
  simp only [setApart_iff ranges ranges']

/-! ## The sources that are left -/

theorem mem_selectable (h : Keyed catalogs) {u : CatalogUnion}
    (hu : Built (united ranges catalogs) u) {d : SourceCatalog} :
    d ∈ selectable ranges (settled ranges catalogs u) ↔
      ∃ s c, catalogs.lookup s = some c ∧ ¬ InConflict catalogs c ∧
        d = { c with state := startState (resetConflict c) } := by
  rw [selectable, List.mem_filterMap]
  constructor
  · rintro ⟨s, -, hs⟩
    obtain ⟨hlook, hstate⟩ := Option.filter_eq_some_iff.mp hs
    cases hc : catalogs.lookup s with
    | none =>
      rw [settled_none ranges hc] at hlook
      cases hlook
    | some c =>
      by_cases hin : InConflict catalogs c
      · rw [settled_conflict ranges h hu hc hin] at hlook
        obtain rfl := Option.some.inj hlook
        simp at hstate
      · rw [settled_clear ranges h hu hc hin] at hlook
        exact ⟨s, c, hc, hin, (Option.some.inj hlook).symm⟩
  · rintro ⟨s, c, hc, hout, rfl⟩
    have hlook := settled_clear ranges h hu hc hout
    have hkey : s ∈ (settled ranges catalogs u).keys :=
      AList.mem_keys.mpr (Map.mem_iff.mpr ⟨_, hlook⟩)
    refine ⟨s, (ranges.perm _ _).mem_iff.mpr hkey, ?_⟩
    rw [hlook]
    exact Option.filter_eq_some_iff.mpr ⟨rfl, by simpa using startState_reset c⟩

theorem sound_selectable (h : Keyed catalogs) {u : CatalogUnion}
    (hu : Built (united ranges catalogs) u) :
    Sound (selectable ranges (settled ranges catalogs u)) where
  named := by
    intro d hd
    obtain ⟨s, c, hc, -, rfl⟩ := (mem_selectable ranges h hu).mp hd
    exact h.named s c hc
  distinct := by
    apply nodup_sources
    · intro s d hs
      obtain ⟨hlook, -⟩ := Option.filter_eq_some_iff.mp hs
      cases hc : catalogs.lookup s with
      | none =>
        rw [settled_none ranges hc] at hlook
        cases hlook
      | some c =>
        by_cases hin : InConflict catalogs c
        · rw [settled_conflict ranges h hu hc hin] at hlook
          exact Option.some.inj hlook ▸ h.key s c hc
        · rw [settled_clear ranges h hu hc hin] at hlook
          exact Option.some.inj hlook ▸ h.key s c hc
    · exact (ranges.perm _ _).nodup_iff.mpr (AList.keys_nodup _)
  consistent := by
    intro d hd n hn d' hd' n' hn' hname hsame
    obtain ⟨s, c, hc, hout, rfl⟩ := (mem_selectable ranges h hu).mp hd
    obtain ⟨s', c', hc', -, rfl⟩ := (mem_selectable ranges h hu).mp hd'
    exact group_of_uncrossed hc hc' (fun hcross => hout (.inl hcross)) hn hn' hname (by rw [hsame])

theorem selectable_perm (working : Map String SourceCatalog) :
    (selectable ranges working).Perm (selectable ranges' working) :=
  ((ranges.perm _ _).trans (ranges'.perm _ _).symm).filterMap _

/-- A node of a source without faults is a valid first node. -/
theorem first_of_sound {c : SourceCatalog} (h : ¬ Faulty c) {n : CatalogNode} (hn : n ∈ c.nodes) :
    First c n.identifier n := by
  unfold Faulty at h
  push Not at h
  obtain ⟨hnamed, hdistinct, hvalid⟩ := h
  refine ⟨?_, hnamed n hn, by simpa using hvalid n hn⟩
  cases hfind : c.nodes.find? fun m => m.identifier == n.identifier with
  | none =>
    rw [List.find?_eq_none] at hfind
    exact absurd (hfind n hn) (by simp)
  | some m =>
    have hsame : m.identifier = n.identifier := by simpa using List.find?_some hfind
    rw [List.inj_on_of_nodup_map hdistinct (List.mem_of_find?_eq_some hfind) hn hsame]

/-! ## The result -/

/-- The run of `validateCatalogs`: both unions and the index are built. -/
theorem validateCatalogs_ok (h : Keyed catalogs) : ∃ u index,
    buildCatalogUnion (united ranges catalogs) = .ok u ∧ Built (united ranges catalogs) u ∧
      buildCatalogIndex ranges (selectable ranges (settled ranges catalogs u)) = .ok index ∧
      validateCatalogs ranges catalogs =
        let details := ((crossOf ranges catalogs).map (·.2) ++ u.conflicts).insertionSort
          fun a b => detailLe a b
        .ok (keepSnapshots (settled ranges catalogs u) details index,
          statesOf (settled ranges catalogs u), details.length) := by
  obtain ⟨u, hu, hbuilt⟩ := buildCatalogUnion_ok (sound_united ranges h)
  obtain ⟨-, index, -, -, -, hindex⟩ := buildCatalogIndex_ok ranges (sound_selectable ranges h hbuilt)
  refine ⟨u, _, hu, hbuilt, hindex, ?_⟩
  show (((buildCatalogUnion (united ranges catalogs)).mapError ValidationError.union) >>= fun u =>
    ((buildCatalogIndex ranges (selectable ranges (settled ranges catalogs u))).mapError
      ValidationError.index) >>= fun index => _) = _
  rw [hu]
  show ((buildCatalogIndex ranges (selectable ranges (settled ranges catalogs u))).mapError
      ValidationError.index >>= fun index => _) = _
  rw [hindex]
  rfl

theorem exact_of_built (h : Keyed catalogs) {u : CatalogUnion}
    (hu : Built (united ranges catalogs) u) {index : CatalogIndex}
    (hindex : buildCatalogIndex ranges (selectable ranges (settled ranges catalogs u)) = .ok index)
    (details : List CatalogConflictDetail) :
    Exact catalogs (keepSnapshots (settled ranges catalogs u) details index)
      (statesOf (settled ranges catalogs u)) := by
  have hclear : ∀ s c, catalogs.lookup s = some c → ¬ InConflict catalogs c →
      statesOf (settled ranges catalogs u) s = some (startState (resetConflict c)) := by
    intro s c hc hout
    rw [statesOf, settled_clear ranges h hu hc hout]
    rfl
  have hconflict : ∀ s c, catalogs.lookup s = some c →
      (statesOf (settled ranges catalogs u) s = some .conflict ↔ InConflict catalogs c) := by
    intro s c hc
    constructor
    · intro hstate
      by_contra hout
      rw [hclear s c hc hout] at hstate
      exact startState_reset c (Option.some.inj hstate)
    · intro hin
      rw [statesOf, settled_conflict ranges h hu hc hin]
      rfl
  have hout : ∀ s c, catalogs.lookup s = some c →
      statesOf (settled ranges catalogs u) s ≠ some .conflict → ¬ InConflict catalogs c :=
    fun s c hc hstate hin => hstate ((hconflict s c hc).mpr hin)
  have hname : ∀ c, ¬ InConflict catalogs c → ∀ n ∈ c.nodes, First c n.identifier n :=
    fun c hout n hn => first_of_sound (fun hfaulty => hout (.inr (.inl hfaulty))) hn
  have hsound := sound_selectable ranges h hu
  obtain ⟨v, built, -, hv, hindexed, hok⟩ := buildCatalogIndex_ok ranges hsound
  obtain rfl := Except.ok.inj (hindex.symm.trans hok)
  refine ⟨hconflict, hclear, ?_, ?_, ?_, ?_⟩
  · intro s c s' c' hc hc' hstate hstate' n hn n' hn' hsame
    have hclean := hout s c hc hstate
    exact group_of_uncrossed hc hc' (fun hcross => hclean (.inl hcross)) hn hn'
      (hname c hclean n hn).2.1 hsame
  · intro s c s' c' hc hc' hstate hstate' n hn n' hn' hsame
    have hclean := hout s c hc hstate
    have hclean' := hout s' c' hc' hstate'
    by_contra hshape
    refine hclean (.inr (.inr ⟨n.identifier, n, hname c hclean n hn, s', c', hc',
      fun hcross => hclean' (.inl hcross), n', hsame ▸ hname c' hclean' n' hn', ?_⟩))
    simpa using hshape
  · intro i g
    show built.groupByNode i = some g ↔ _
    rw [hindexed.groupOf, mem_pointKeys, pointAt, Option.isSome_map]
    constructor
    · rintro ⟨⟨n, hn⟩, -⟩
      obtain ⟨d, hd, hfirst, rfl⟩ := hv.nodes g i n hn
      obtain ⟨s, c, hc, hclean, rfl⟩ := (mem_selectable ranges h hu).mp hd
      exact ⟨s, c, hc, fun hstate => hclean ((hconflict s c hc).mp hstate), n, hfirst.mem.1,
        hfirst.mem.2, rfl⟩
    · rintro ⟨s, c, hc, hstate, n, hn, rfl, rfl⟩
      have hclean := hout s c hc hstate
      obtain ⟨m, hm⟩ := hv.offered { c with state := startState (resetConflict c) }
        ((mem_selectable ranges h hu).mpr ⟨s, c, hc, hclean, rfl⟩) n.identifier n
        (hname c hclean n hn)
      exact ⟨⟨m, hm⟩, by rw [show v.node (c.nodeGroup n) n.identifier = some m from hm]; rfl⟩
  · intro p hp
    show built.groupByNode p.node.identifier = some p.groupID
    have hp' : p ∈ built.points := (List.mem_insertionSort _).mp hp
    rw [hindexed.points] at hp'
    obtain ⟨⟨g, i⟩, hkey, hp'⟩ := List.mem_filterMap.mp hp'
    obtain ⟨n, hn, rfl⟩ := pointAt_some.mp hp'
    have hni : n.identifier = i := (hv.placed hsound.consistent).named g i n hn
    show built.groupByNode n.identifier = some g
    rw [hni, hindexed.groupOf]
    exact ⟨hkey, by rw [hp']; rfl⟩

theorem keepSnapshots_alike {a b : CatalogIndex} (h : Alike a b)
    (working : Map String SourceCatalog) (details : List CatalogConflictDetail) :
    Alike (keepSnapshots working details a) (keepSnapshots working details b) where
  points := h.points
  byNode := h.byNode
  groupOf := h.groupOf
  ofGroup := h.ofGroup
  sources := h.sources
  groups := h.groups
  nodes := h.nodes
  states := by
    show (fun id => (statesOf working id).or (a.union.sourceStates id)) = _
    rw [h.states]
    rfl
  topologies := by
    show (fun id => ((working.lookup id).bind (·.topology)).or (a.union.sourceTopologies id)) = _
    rw [h.topologies]
    rfl
  sourceNodes := by
    show (fun id => ((working.lookup id).map nodeTable).or (a.union.sourceNodes id)) = _
    rw [h.sourceNodes]
    rfl
  conflicts := rfl

end

/-- The classification is exact, and the order of the loops shows only within `groupPoints`. -/
theorem catalog_classification (catalogs : Map String SourceCatalog) (h : Keyed catalogs) :
    (∀ ranges, ∃ index states count, validateCatalogs ranges catalogs = .ok (index, states, count) ∧
      Exact catalogs index states) ∧
    ∀ ranges ranges' r r', validateCatalogs ranges catalogs = .ok r →
      validateCatalogs ranges' catalogs = .ok r' → Alike r.1 r'.1 ∧ r.2 = r'.2 := by
  constructor
  · intro ranges
    obtain ⟨u, index, -, hu, hindex, hok⟩ := validateCatalogs_ok ranges h
    exact ⟨_, _, _, hok, exact_of_built ranges h hu hindex _⟩
  · intro ranges ranges' r r' hr hr'
    obtain ⟨u, index, hu, hbuilt, hindex, hok⟩ := validateCatalogs_ok ranges h
    obtain ⟨u', index', hu', -, hindex', hok'⟩ := validateCatalogs_ok ranges' h
    have hsame : buildCatalogUnion (united ranges catalogs) =
        buildCatalogUnion (united ranges' catalogs) :=
      buildCatalogUnion_perm (united_perm ranges ranges') (sound_united ranges h).distinct
    obtain rfl : u = u' := Except.ok.inj (hu.symm.trans (hsame.trans hu'))
    have howners : (collectOwners ranges (workingOf catalogs)).Perm
        (collectOwners ranges' (workingOf catalogs)) := collectOwners_perm ranges ranges'
    have hdetails := details_eq ranges ranges' howners u.conflicts
    have hworking : settled ranges catalogs u = settled ranges' catalogs u :=
      settled_eq ranges ranges' u
    rw [← hworking] at hindex'
    have halike := buildCatalogIndex_alike ranges ranges' (sound_selectable ranges h hbuilt)
      (selectable_perm ranges ranges' _) hindex hindex'
    obtain rfl := Except.ok.inj (hr.symm.trans hok)
    obtain rfl := Except.ok.inj (hr'.symm.trans hok')
    dsimp only
    rw [← hworking, crossOf, crossOf, hdetails]
    exact ⟨keepSnapshots_alike halike _ _, rfl⟩

/-! ## Small maps -/

def inOrder : Ranges := ⟨fun _ keys => keys, fun _ _ => .refl _⟩

def reversed : Ranges := ⟨fun _ keys => keys.reverse, fun _ _ => List.reverse_perm _⟩

def variableNode (identifier : String) : CatalogNode where
  groupID := ""
  kind := ""
  identifier := identifier
  nodeClass := .variable
  dataType := .float
  valueRank := -1
  writable := false
  inputArguments := []
  outputArguments := []
  retired := false

/-- A method, but not a command method. -/
def methodNode (identifier : String) : CatalogNode :=
  { variableNode identifier with nodeClass := .method }

def catalogOf (sourceID : String) (nodes : List CatalogNode) : SourceCatalog where
  sourceID := sourceID
  groupID := "g"
  state := .ready
  nodes := nodes
  topology := none

def mapOf (catalogs : List SourceCatalog) : Map String SourceCatalog :=
  Map.inserts (·.sourceID) id ∅ catalogs

/-- Source `a` has a bad method under the name of a variable of source `b`. -/
def methodAndVariable : Map String SourceCatalog :=
  mapOf [catalogOf "a" [methodNode "X"], catalogOf "b" [variableNode "X"]]

def twoVariables : Map String SourceCatalog :=
  mapOf [catalogOf "a" [variableNode "A", variableNode "B"]]

theorem keyed_of_entries {m : Map String SourceCatalog}
    (h : ∀ e ∈ m.entries, e.2.sourceID = e.1 ∧ trim e.2.sourceID ≠ "" ∧ trim e.2.groupID ≠ "") :
    Keyed m where
  key := fun _ _ hc => (h _ (Map.mem_entries.mpr hc)).1
  named := fun _ _ hc => (h _ (Map.mem_entries.mpr hc)).2

/-- In one group nothing is set apart. -/
theorem not_crossGroup_of_entries {m : Map String SourceCatalog} {g : String}
    (h : ∀ e ∈ m.entries, ∀ n ∈ e.2.nodes, e.2.nodeGroup n = g) (c : SourceCatalog) :
    ¬ CrossGroup m c := by
  have hone : ∀ i g', Occurs m i g' → g' = g := by
    rintro i _ ⟨s, c, hc, n, hn, -, rfl⟩
    exact h _ (Map.mem_entries.mpr hc) n hn
  rintro ⟨n, -, -, g₁, g₂, h₁, h₂, hne⟩
  exact hne ((hone _ _ h₁).trans (hone _ _ h₂).symm)

theorem catalog_classification_small : Keyed methodAndVariable ∧
    ∃ index states count,
      validateCatalogs inOrder methodAndVariable = .ok (index, states, count) ∧
        Exact methodAndVariable index states :=
  have h : Keyed methodAndVariable := keyed_of_entries (by decide +kernel)
  ⟨h, (catalog_classification methodAndVariable h).1 inOrder⟩

/-- Another shape under a shared identifier is no conflict where its node is not valid. The order
of the loops shows in `groupPoints`, and an ID of blanks is an error. -/
theorem classification_not_literal :
    ((validateCatalogs inOrder methodAndVariable).map (fun r => r.2.1 "b") = .ok (some .ready) ∧
      (∀ c, ¬ CrossGroup methodAndVariable c) ∧
      ∃ c c', methodAndVariable.lookup "b" = some c ∧ methodAndVariable.lookup "a" = some c' ∧
        ∃ n ∈ c.nodes, ∃ n' ∈ c'.nodes, n.identifier = n'.identifier ∧ sameShape n n' = false) ∧
    ((validateCatalogs inOrder twoVariables).map
        (fun r => (r.1.groupPoints "g").map (·.node.identifier)) ≠
      (validateCatalogs reversed twoVariables).map
        fun r => (r.1.groupPoints "g").map (·.node.identifier)) ∧
    (validateCatalogs inOrder (mapOf [catalogOf " " []])).map (fun r => r.2.2) =
      .error (.union (.field "source_id" "must not be empty")) := by
  refine ⟨⟨by decide +kernel, ?_, ?_⟩, by decide +kernel, by decide +kernel⟩
  · exact fun c => not_crossGroup_of_entries (g := "g") (by decide +kernel) c
  · exact ⟨catalogOf "b" [variableNode "X"], catalogOf "a" [methodNode "X"], by decide +kernel,
      by decide +kernel, variableNode "X", by decide, methodNode "X", by decide, by decide,
      by decide +kernel⟩

end RcdServer.Catalog
