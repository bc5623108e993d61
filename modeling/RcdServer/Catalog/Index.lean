import Mathlib.Data.List.Permutation
import RcdServer.Catalog.Classification
import RcdServer.Catalog.Isolation

/-!
# The index

What `buildCatalogIndex` makes of a union in which every identifier has one group: a point for
each node, with the sources that have a node under its identifier. The order of its loops shows
only in the lists of the points by group.
-/
namespace RcdServer.Catalog

open Lib Lib.Text Lib.Sorting

/-! ## One point -/

/-- The point of a node: retired if it is retired in every catalog that has it. -/
def pointOf (cs : List SourceCatalog) (g i : String) (n : CatalogNode) : IndexedPoint where
  groupID := g
  node := { n with retired := cs.all fun c => (nodeTable c i).all (·.retired) }
  sourceIDs := sortTexts ((cs.filter fun c => (nodeTable c i).isSome).map (·.sourceID))

def pointAt (u : CatalogUnion) (cs : List SourceCatalog) (key : String × String) :
    Option IndexedPoint := (u.node key.1 key.2).map (pointOf cs key.1 key.2)

theorem pointOf_perm {cs cs' : List SourceCatalog} (h : cs.Perm cs') :
    pointOf cs = pointOf cs' := by
  funext g i n
  have hall : (cs.all fun c => (nodeTable c i).all (·.retired)) =
      cs'.all fun c => (nodeTable c i).all (·.retired) := by
    rw [Bool.eq_iff_iff, List.all_eq_true, List.all_eq_true]
    simp only [h.mem_iff]
  rw [pointOf, pointOf, hall, sortTexts_perm ((h.filter _).map _)]

def sourceTable (cs : List SourceCatalog) : Map String (String → Option CatalogNode) :=
  Map.inserts (·.sourceID) nodeTable ∅ cs

section

variable (ranges : Ranges) {cs : List SourceCatalog} {index : CatalogIndex}

theorem sourceNode_table (hdistinct : (cs.map (·.sourceID)).Nodup)
    (hsources : index.sourceNodes = sourceTable cs) {c : SourceCatalog} (hc : c ∈ cs) (i : String) :
    sourceNode index c.sourceID i = nodeTable c i := by
  unfold sourceNode
  rw [hsources, sourceTable, Map.lookup_inserts_mem hdistinct hc]
  rfl

/-- The sources found for an identifier are those of the catalogs that have it. -/
theorem providers_perm (hdistinct : (cs.map (·.sourceID)).Nodup)
    (hsources : index.sourceNodes = sourceTable cs) (g i : String) :
    ((ranges.visit (.providers g i) index.sourceNodes.keys).filter fun s =>
        (sourceNode index s i).isSome).Perm
      ((cs.filter fun c => (nodeTable c i).isSome).map (·.sourceID)) := by
  have hkeys : (ranges.visit (.providers g i) index.sourceNodes.keys).Perm
      (cs.map (·.sourceID)) := by
    rw [hsources]
    exact (ranges.perm _ _).trans (Map.keys_inserts hdistinct)
  have hsame : ((cs.map (·.sourceID)).filter fun s => (sourceNode index s i).isSome) =
      (cs.filter fun c => (nodeTable c i).isSome).map (·.sourceID) := by
    rw [List.filter_map]
    congr 1
    apply List.filter_congr
    intro c hc
    show (sourceNode index c.sourceID i).isSome = _
    rw [sourceNode_table hdistinct hsources hc]
  exact hsame ▸ hkeys.filter _

theorem addPoint_none {g i : String} (h : index.union.node g i = none) :
    addPoint ranges index (g, i) = index := by
  rw [addPoint]
  dsimp only
  rw [h]

/-- One round of the loop over the nodes of the union. -/
theorem addPoint_some (hdistinct : (cs.map (·.sourceID)).Nodup)
    (hsources : index.sourceNodes = sourceTable cs) {g i : String} {n : CatalogNode}
    (h : index.union.node g i = some n) :
    addPoint ranges index (g, i) =
      { index with
        union := index.union.setNode g (pointOf cs g i n).node
        points := index.points ++ [pointOf cs g i n]
        pointByNode := Function.update index.pointByNode i (some (pointOf cs g i n))
        groupByNode := Function.update index.groupByNode i (some g)
        groupPoints := Function.update index.groupPoints g
          (index.groupPoints g ++ [pointOf cs g i n]) } := by
  have hproviders := providers_perm ranges hdistinct hsources g i
  have hretired : (((ranges.visit (.providers g i) index.sourceNodes.keys).filter fun s =>
        (sourceNode index s i).isSome).all fun s => (sourceNode index s i).all (·.retired)) =
      cs.all fun c => (nodeTable c i).all (·.retired) := by
    rw [Bool.eq_iff_iff, List.all_eq_true, List.all_eq_true]
    simp only [hproviders.mem_iff, List.mem_map, List.mem_filter]
    constructor
    · intro hall c hc
      cases htable : nodeTable c i with
      | none => rfl
      | some m =>
        rw [← htable, ← sourceNode_table hdistinct hsources hc]
        exact hall _ ⟨c, ⟨hc, by rw [htable]; rfl⟩, rfl⟩
    · rintro hall _ ⟨c, ⟨hc, -⟩, rfl⟩
      rw [sourceNode_table hdistinct hsources hc]
      exact hall c hc
  rw [addPoint]
  dsimp only
  rw [h]
  dsimp only
  rw [hretired, sortTexts_perm hproviders]
  rfl

end

/-! ## All points -/

/-- Nodes stand under their own identifier, which has one group. -/
structure Placed (u : CatalogUnion) : Prop where
  named : ∀ g i n, u.node g i = some n → n.identifier = i
  single : ∀ g g' i n n', u.node g i = some n → u.node g' i = some n' → g = g'

/-- The index after the points of some keys. -/
structure Indexed (u : CatalogUnion) (cs : List SourceCatalog) (done : List (String × String))
    (index : CatalogIndex) : Prop where
  sources : index.sourceNodes = sourceTable cs
  node : ∀ g i, index.union.node g i =
    if (g, i) ∈ done then (pointAt u cs (g, i)).map (·.node) else u.node g i
  groups : ∀ g, g ∈ index.union.groups ↔ g ∈ u.groups
  rest : index.union = { u with groups := index.union.groups }
  points : index.points = done.filterMap (pointAt u cs)
  ofGroup : ∀ g, index.groupPoints g =
    (done.filter fun key => key.1 == g).filterMap (pointAt u cs)
  byNode : ∀ i p, index.pointByNode i = some p ↔
    ∃ g, (g, i) ∈ done ∧ pointAt u cs (g, i) = some p
  groupOf : ∀ i g, index.groupByNode i = some g ↔
    (g, i) ∈ done ∧ (pointAt u cs (g, i)).isSome = true

theorem indexed_start (u : CatalogUnion) (cs : List SourceCatalog) :
    Indexed u cs [] (startIndex u cs) where
  sources := rfl
  node := by simp [startIndex]
  groups := fun _ => Iff.rfl
  rest := rfl
  points := rfl
  ofGroup := fun _ => rfl
  byNode := by simp [startIndex]
  groupOf := by simp [startIndex]

theorem pointAt_some {u : CatalogUnion} {cs : List SourceCatalog} {g i : String} {p : IndexedPoint} :
    pointAt u cs (g, i) = some p ↔ ∃ n, u.node g i = some n ∧ pointOf cs g i n = p :=
  Option.map_eq_some_iff

theorem node_mem_groups {u : CatalogUnion} {g i : String} {n : CatalogNode}
    (h : u.node g i = some n) : g ∈ u.groups := by
  unfold CatalogUnion.node at h
  obtain ⟨nodes, hnodes, -⟩ := Option.bind_eq_some_iff.mp h
  exact Map.mem_iff.mpr ⟨nodes, hnodes⟩

variable {u : CatalogUnion} {cs : List SourceCatalog} {done : List (String × String)}
  {index : CatalogIndex}

/-- A point is added to the index. -/
theorem Indexed.add (ranges : Ranges) (hplaced : Placed u)
    (hdistinct : (cs.map (·.sourceID)).Nodup) (h : Indexed u cs done index) {g i : String}
    (hnew : (g, i) ∉ done) : Indexed u cs (done ++ [(g, i)]) (addPoint ranges index (g, i)) := by
  have hcurrent : index.union.node g i = u.node g i := by rw [h.node, if_neg hnew]
  cases hnode : u.node g i with
  | none =>
    have hpoint : pointAt u cs (g, i) = none := by
      rw [pointAt, hnode]
      rfl
    have hmem : ∀ g' i', (pointAt u cs (g', i')).isSome = true →
        ((g', i') ∈ done ++ [(g, i)] ↔ (g', i') ∈ done) := by
      intro g' i' hsome
      rw [List.mem_append, List.mem_singleton]
      constructor
      · rintro (hold | heq)
        · exact hold
        · rw [heq, hpoint] at hsome
          cases hsome
      · exact .inl
    rw [addPoint_none ranges (hcurrent.trans hnode)]
    refine ⟨h.sources, ?_, h.groups, h.rest, ?_, ?_, ?_, ?_⟩
    · intro g' i'
      rw [h.node]
      by_cases hkey : (g', i') = (g, i)
      · obtain ⟨rfl, rfl⟩ := Prod.mk.inj hkey
        rw [if_neg hnew, if_pos (by simp), hnode, hpoint]
        rfl
      · simp only [List.mem_append, List.mem_singleton, hkey, or_false]
    · rw [h.points, List.filterMap_append]
      simp [hpoint]
    · intro g'
      rw [h.ofGroup, List.filter_append, List.filterMap_append]
      by_cases hg : g = g'
      · simp [hg ▸ hpoint, hg]
      · simp [hg]
    · intro i' p
      rw [h.byNode]
      apply exists_congr
      intro g'
      apply and_congr_left
      intro hp
      exact (hmem g' i' (by rw [hp]; rfl)).symm
    · intro i' g'
      rw [h.groupOf]
      apply and_congr_left
      intro hp
      exact (hmem g' i' hp).symm
  | some n =>
    have hpoint : pointAt u cs (g, i) = some (pointOf cs g i n) := by
      rw [pointAt, hnode]
      rfl
    have hname : (pointOf cs g i n).node.identifier = i := hplaced.named g i n hnode
    have hother : ∀ g' i', (pointAt u cs (g', i')).isSome = true → i' = i → g' = g := by
      rintro g' i' hsome rfl
      obtain ⟨p, hp⟩ := Option.isSome_iff_exists.mp hsome
      obtain ⟨m, hm, -⟩ := pointAt_some.mp hp
      exact hplaced.single _ _ _ _ _ hm hnode
    rw [addPoint_some ranges hdistinct h.sources (hcurrent.trans hnode)]
    refine ⟨h.sources, ?_, ?_, ?_, ?_, ?_, ?_, ?_⟩
    · intro g' i'
      show (index.union.setNode g (pointOf cs g i n).node).node g' i' = _
      rw [node_setNode, hname, h.node]
      by_cases hkey : g' = g ∧ i' = i
      · obtain ⟨rfl, rfl⟩ := hkey
        rw [if_pos ⟨rfl, rfl⟩, if_pos (by simp), hpoint]
        rfl
      · rw [if_neg hkey]
        have hne : (g', i') ≠ (g, i) := fun heq => hkey (Prod.mk.inj heq)
        simp only [List.mem_append, List.mem_singleton, hne, or_false]
    · intro g'
      show g' ∈ index.union.groups.insert g _ ↔ _
      rw [AList.mem_insert, h.groups]
      constructor
      · rintro (rfl | hold)
        · exact node_mem_groups hnode
        · exact hold
      · exact .inr
    · show index.union.setNode g (pointOf cs g i n).node = _
      unfold CatalogUnion.setNode
      rw [h.rest]
    · show index.points ++ _ = _
      rw [h.points, List.filterMap_append]
      simp [hpoint]
    · intro g'
      show Function.update index.groupPoints g _ g' = _
      rw [List.filter_append, List.filterMap_append]
      by_cases hg : g' = g
      · subst hg
        rw [Function.update_self, h.ofGroup]
        simp [hpoint]
      · rw [Function.update_of_ne hg, h.ofGroup]
        simp [Ne.symm hg]
    · intro i' p
      show Function.update index.pointByNode i _ i' = _ ↔ _
      by_cases hi : i' = i
      · subst hi
        rw [Function.update_self, Option.some.injEq]
        constructor
        · rintro rfl
          exact ⟨g, by simp, hpoint⟩
        · rintro ⟨g', -, hp⟩
          obtain rfl := hother g' i' (by rw [hp]; rfl) rfl
          exact Option.some.inj (hpoint.symm.trans hp)
      · rw [Function.update_of_ne hi, h.byNode]
        simp [hi]
    · intro i' g'
      show Function.update index.groupByNode i _ i' = _ ↔ _
      by_cases hi : i' = i
      · subst hi
        rw [Function.update_self, Option.some.injEq]
        constructor
        · rintro rfl
          exact ⟨by simp, by rw [hpoint]; rfl⟩
        · rintro ⟨-, hp⟩
          exact (hother g' i' hp rfl).symm
      · rw [Function.update_of_ne hi, h.groupOf]
        simp [hi]

theorem Indexed.addAll (ranges : Ranges) (hplaced : Placed u)
    (hdistinct : (cs.map (·.sourceID)).Nodup) (more : List (String × String))
    (hnodup : (done ++ more).Nodup) (h : Indexed u cs done index) :
    Indexed u cs (done ++ more) (more.foldl (addPoint ranges) index) := by
  induction more generalizing done index with
  | nil => simpa using h
  | cons key more ih =>
    obtain ⟨g, i⟩ := key
    have hnew : (g, i) ∉ done := by
      rw [List.nodup_append] at hnodup
      exact fun hmem => hnodup.2.2 _ hmem (g, i) List.mem_cons_self rfl
    have hnext := ih (by simpa using hnodup) (h.add ranges hplaced hdistinct hnew)
    rw [List.foldl_cons]
    simpa using hnext

/-! ## The keys -/

theorem mem_pointKeys {ranges : Ranges} {u : CatalogUnion} {g i : String} :
    (g, i) ∈ pointKeys ranges u ↔ ∃ n, u.node g i = some n := by
  have hinner : ∀ g, (∃ n, u.node g i = some n) ↔ i ∈ u.identifiers g ∧ g ∈ u.groups.keys := by
    intro g
    unfold CatalogUnion.node CatalogUnion.identifiers
    rw [← AList.mem_keys, ← AList.mem_keys, Map.mem_iff, Map.mem_iff]
    cases hg : u.groups.lookup g with
    | none => simp
    | some nodes => simp
  simp only [pointKeys, List.mem_flatMap, List.mem_map, Prod.mk.injEq]
  rw [hinner]
  constructor
  · rintro ⟨g', hg', i', hi', rfl, rfl⟩
    exact ⟨(ranges.perm _ _).mem_iff.mp hi', (ranges.perm _ _).mem_iff.mp hg'⟩
  · rintro ⟨hi, hg⟩
    exact ⟨g, (ranges.perm _ _).mem_iff.mpr hg, i, (ranges.perm _ _).mem_iff.mpr hi, rfl, rfl⟩

theorem nodup_pointKeys (ranges : Ranges) (u : CatalogUnion) : (pointKeys ranges u).Nodup := by
  unfold pointKeys
  rw [List.nodup_flatMap]
  constructor
  · intro g _
    have hnodup : (ranges.visit (.unionNodes g) (u.identifiers g)).Nodup :=
      (ranges.perm _ _).nodup_iff.mpr (AList.keys_nodup _)
    exact hnodup.map fun i i' heq => (Prod.mk.inj heq).2
  · have hnodup : (ranges.visit .unionGroups u.groups.keys).Nodup :=
      (ranges.perm _ _).nodup_iff.mpr (AList.keys_nodup _)
    apply hnodup.imp
    intro g g' hne
    rw [Function.onFun, List.disjoint_left]
    intro key hkey hkey'
    obtain ⟨i, -, rfl⟩ := List.mem_map.mp hkey
    obtain ⟨i', -, heq⟩ := List.mem_map.mp hkey'
    exact hne (Prod.mk.inj heq).1.symm

theorem pointKeys_perm (ranges ranges' : Ranges) (u : CatalogUnion) :
    (pointKeys ranges u).Perm (pointKeys ranges' u) := by
  rw [List.perm_ext_iff_of_nodup (nodup_pointKeys ranges u) (nodup_pointKeys ranges' u)]
  rintro ⟨g, i⟩
  rw [mem_pointKeys, mem_pointKeys]

/-! ## The result -/

theorem Built.placed {cs : List SourceCatalog} {u : CatalogUnion} (h : Built cs u)
    (hcons : Consistent cs) : Placed u where
  named := by
    intro g i n hn
    obtain ⟨c, -, hfirst, -⟩ := h.nodes g i n hn
    exact hfirst.mem.2
  single := by
    intro g g' i n n' hn hn'
    obtain ⟨c, hc, hfirst, rfl⟩ := h.nodes g i n hn
    obtain ⟨c', hc', hfirst', rfl⟩ := h.nodes g' i n' hn'
    obtain ⟨hmem, rfl⟩ := hfirst.mem
    obtain ⟨hmem', hsame⟩ := hfirst'.mem
    exact hcons c hc n hmem c' hc' n' hmem' hfirst.2.1 hsame.symm

theorem buildCatalogIndex_ok (ranges : Ranges) {cs : List SourceCatalog} (h : Sound cs) :
    ∃ u index, buildCatalogUnion cs = .ok u ∧ Built cs u ∧
      Indexed u cs (pointKeys ranges u) index ∧
      buildCatalogIndex ranges cs =
        .ok { index with points := index.points.insertionSort fun a b => pointLe a b } := by
  obtain ⟨u, hu, hbuilt⟩ := buildCatalogUnion_ok h
  have hindexed := (indexed_start u cs).addAll ranges (hbuilt.placed h.consistent) h.distinct
    (pointKeys ranges u) (nodup_pointKeys ranges u)
  refine ⟨u, _, hu, hbuilt, hindexed, ?_⟩
  rw [buildCatalogIndex, hu]
  rfl

/-- The same index but for the order of the points in each list of `groupPoints`. -/
structure Alike (a b : CatalogIndex) : Prop where
  points : a.points = b.points
  byNode : a.pointByNode = b.pointByNode
  groupOf : a.groupByNode = b.groupByNode
  ofGroup : ∀ g, (a.groupPoints g).Perm (b.groupPoints g)
  sources : ∀ s, a.sourceNodes.lookup s = b.sourceNodes.lookup s
  groups : ∀ g, g ∈ a.union.groups ↔ g ∈ b.union.groups
  nodes : a.union.node = b.union.node
  states : a.union.sourceStates = b.union.sourceStates
  topologies : a.union.sourceTopologies = b.union.sourceTopologies
  sourceNodes : a.union.sourceNodes = b.union.sourceNodes
  conflicts : a.union.conflicts = b.union.conflicts

theorem lookup_sourceTable_perm {cs cs' : List SourceCatalog} (hperm : cs.Perm cs')
    (hdistinct : (cs.map (·.sourceID)).Nodup) (s : String) :
    (sourceTable cs).lookup s = (sourceTable cs').lookup s := by
  have hdistinct' : (cs'.map (·.sourceID)).Nodup := (hperm.map _).nodup_iff.mp hdistinct
  by_cases hs : s ∈ cs.map (·.sourceID)
  · obtain ⟨c, hc, rfl⟩ := List.mem_map.mp hs
    rw [sourceTable, sourceTable, Map.lookup_inserts_mem hdistinct hc,
      Map.lookup_inserts_mem hdistinct' (hperm.mem_iff.mp hc)]
  · have hs' : s ∉ cs'.map (·.sourceID) := fun hin => hs ((hperm.map _).mem_iff.mpr hin)
    rw [sourceTable, sourceTable, Map.lookup_inserts_other hs, Map.lookup_inserts_other hs']

/-- Points under different identifiers or in different groups do not tie. -/
theorem sortPoints_perm {u : CatalogUnion} {cs : List SourceCatalog} (hplaced : Placed u)
    {keys keys' : List (String × String)} (h : keys.Perm keys') :
    ((keys.filterMap (pointAt u cs)).insertionSort fun a b => pointLe a b = true) =
      (keys'.filterMap (pointAt u cs)).insertionSort fun a b => pointLe a b = true := by
  simp only [pointLe_eq]
  apply sort_by_key (fun p : IndexedPoint => (p.groupID, p.node.identifier)) (h.filterMap _)
  intro p hp q hq hkey
  obtain ⟨⟨g, i⟩, -, hp⟩ := List.mem_filterMap.mp hp
  obtain ⟨⟨g', i'⟩, -, hq⟩ := List.mem_filterMap.mp hq
  obtain ⟨n, hn, rfl⟩ := pointAt_some.mp hp
  obtain ⟨n', hn', rfl⟩ := pointAt_some.mp hq
  obtain ⟨hg, hi⟩ := Prod.mk.inj hkey
  have hni : n.identifier = i := hplaced.named g i n hn
  have hni' : n'.identifier = i' := hplaced.named g' i' n' hn'
  obtain rfl : g = g' := hg
  obtain rfl : i = i' := hni.symm.trans ((hi : n.identifier = n'.identifier).trans hni')
  exact Option.some.inj (hp.symm.trans hq)

/-- The order of the catalogs and of the loops shows in no other place. -/
theorem buildCatalogIndex_alike (ranges ranges' : Ranges) {cs cs' : List SourceCatalog}
    (h : Sound cs) (hperm : cs.Perm cs') {a b : CatalogIndex}
    (ha : buildCatalogIndex ranges cs = .ok a) (hb : buildCatalogIndex ranges' cs' = .ok b) :
    Alike a b := by
  obtain ⟨u, index, hu, hbuilt, hindexed, hok⟩ := buildCatalogIndex_ok ranges h
  have hdistinct' : (cs'.map (·.sourceID)).Nodup := (hperm.map _).nodup_iff.mp h.distinct
  have hplaced : Placed u := hbuilt.placed h.consistent
  have hu' : buildCatalogUnion cs' = .ok u := by rw [← hu, buildCatalogUnion_perm hperm h.distinct]
  have hindexed' := (indexed_start u cs').addAll ranges' hplaced hdistinct'
    (pointKeys ranges' u) (nodup_pointKeys ranges' u)
  have hok' : buildCatalogIndex ranges' cs' = .ok
      { (pointKeys ranges' u).foldl (addPoint ranges') (startIndex u cs') with
        points := ((pointKeys ranges' u).foldl (addPoint ranges')
          (startIndex u cs')).points.insertionSort fun a b => pointLe a b } := by
    rw [buildCatalogIndex, hu']
    rfl
  obtain rfl := Except.ok.inj (ha.symm.trans hok)
  obtain rfl := Except.ok.inj (hb.symm.trans hok')
  rw [List.nil_append] at hindexed'
  have hkeys := pointKeys_perm ranges ranges' u
  have hpoint : pointAt u cs = pointAt u cs' := by
    funext key
    rw [pointAt, pointAt, pointOf_perm hperm]
  refine ⟨?_, ?_, ?_, ?_, ?_, ?_, ?_, ?_, ?_, ?_, ?_⟩
  · dsimp only
    rw [hindexed.points, hindexed'.points, ← hpoint]
    exact sortPoints_perm hplaced hkeys
  · funext i
    apply Option.ext
    intro p
    simp only [hindexed.byNode, hindexed'.byNode, hkeys.mem_iff, hpoint]
  · funext i
    apply Option.ext
    intro g
    simp only [hindexed.groupOf, hindexed'.groupOf, hkeys.mem_iff, hpoint]
  · intro g
    dsimp only
    rw [hindexed.ofGroup, hindexed'.ofGroup, hpoint]
    exact (hkeys.filter _).filterMap _
  · intro s
    dsimp only
    rw [hindexed.sources, hindexed'.sources]
    exact lookup_sourceTable_perm hperm h.distinct s
  · intro g
    exact (hindexed.groups g).trans (hindexed'.groups g).symm
  · funext g i
    simp only [hindexed.node, hindexed'.node, hkeys.mem_iff, hpoint]
  · dsimp only
    rw [hindexed.rest, hindexed'.rest]
  · dsimp only
    rw [hindexed.rest, hindexed'.rest]
  · dsimp only
    rw [hindexed.rest, hindexed'.rest]
  · dsimp only
    rw [hindexed.rest, hindexed'.rest]

end RcdServer.Catalog
