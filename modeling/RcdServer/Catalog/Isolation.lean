import Mathlib.Data.List.Dedup
import Mathlib.Data.List.Perm.Basic
import RcdServer.Catalog.Validation
import RcdServer.Lib.Sorting

/-!
# Identifiers in several groups

Which sources `validateCatalogs` sets apart before it unites the others, and that neither they nor
the conflicts that name them depend on the order in which the maps are gone through.
-/
namespace RcdServer.Catalog

open Lib Lib.Text Lib.Sorting

/-! ## Orders on texts -/

instance : Std.Total fun a b : String => textLe a.toList b.toList = true :=
  ⟨fun a b => textLe_total a.toList b.toList⟩

instance : IsTrans String fun a b => textLe a.toList b.toList = true :=
  ⟨fun _ _ _ h h' => textLe_trans h h'⟩

theorem text_antisymm {a b : String} (h : textLe a.toList b.toList = true)
    (h' : textLe b.toList a.toList = true) : a = b :=
  String.ext_iff.mpr (textLe_antisymm h h')

theorem sortTexts_perm {l m : List String} (h : l.Perm m) : sortTexts l = sortTexts m :=
  insertionSort_eq_of_perm h fun _ _ _ _ => text_antisymm

/-- The lexicographic order of pairs of texts. -/
def pairLe (a b : String × String) : Bool :=
  if a.1 = b.1 then textLe a.2.toList b.2.toList else textLe a.1.toList b.1.toList

theorem pairLe_total (a b : String × String) : pairLe a b = true ∨ pairLe b a = true := by
  unfold pairLe
  by_cases h : a.1 = b.1
  · simpa [h] using textLe_total a.2.toList b.2.toList
  · simpa [h, Ne.symm h] using textLe_total a.1.toList b.1.toList

theorem pairLe_antisymm {a b : String × String} (h : pairLe a b = true) (h' : pairLe b a = true) :
    a = b := by
  unfold pairLe at h h'
  by_cases heq : a.1 = b.1
  · rw [if_pos heq] at h
    rw [if_pos heq.symm] at h'
    exact Prod.ext heq (text_antisymm h h')
  · rw [if_neg heq] at h
    rw [if_neg (Ne.symm heq)] at h'
    exact absurd (text_antisymm h h') heq

theorem pairLe_trans {a b c : String × String} (h : pairLe a b = true) (h' : pairLe b c = true) :
    pairLe a c = true := by
  unfold pairLe at h h' ⊢
  by_cases hab : a.1 = b.1
  · rw [if_pos hab] at h
    by_cases hbc : b.1 = c.1
    · rw [if_pos hbc] at h'
      rw [if_pos (hab.trans hbc)]
      exact textLe_trans h h'
    · rw [if_neg hbc] at h'
      rwa [if_neg (hab ▸ hbc), hab]
  · rw [if_neg hab] at h
    by_cases hbc : b.1 = c.1
    · rwa [if_neg (hbc ▸ hab), ← hbc]
    · rw [if_neg hbc] at h'
      have hac : a.1 ≠ c.1 := by
        intro hac
        rw [← hac] at h'
        exact hab (text_antisymm h h')
      rw [if_neg hac]
      exact textLe_trans h h'

section

variable {α : Type} (key : α → String × String)

instance totalByKey : Std.Total fun a b => pairLe (key a) (key b) = true :=
  ⟨fun a b => pairLe_total (key a) (key b)⟩

instance transByKey : IsTrans α fun a b => pairLe (key a) (key b) = true :=
  ⟨fun _ _ _ h h' => pairLe_trans h h'⟩

/-- Sorting by a key that tells the elements apart forgets the order of the input. -/
theorem sort_by_key {l m : List α} (h : l.Perm m)
    (hkey : ∀ a ∈ l, ∀ b ∈ l, key a = key b → a = b) :
    (l.insertionSort fun a b => pairLe (key a) (key b) = true) =
      m.insertionSort fun a b => pairLe (key a) (key b) = true :=
  insertionSort_eq_of_perm h fun a ha b hb hab hba => hkey a ha b hb (pairLe_antisymm hab hba)

end

theorem catalogLe_eq (a b : SourceCatalog) :
    catalogLe a b = pairLe (a.groupID, a.sourceID) (b.groupID, b.sourceID) := rfl

theorem pointLe_eq (a b : IndexedPoint) :
    pointLe a b = pairLe (a.groupID, a.node.identifier) (b.groupID, b.node.identifier) := rfl

theorem detailLe_eq (a b : CatalogConflictDetail) :
    detailLe a b = pairLe (a.identifier, a.kind.text) (b.identifier, b.kind.text) := by
  unfold detailLe pairLe
  by_cases h : a.identifier = b.identifier
  · simp [h]
  · simp [h]

/-- The union does not depend on the order of the catalogs. -/
theorem buildCatalogUnion_perm {ws ws' : List SourceCatalog} (h : ws.Perm ws')
    (hdistinct : (ws.map (·.sourceID)).Nodup) : buildCatalogUnion ws = buildCatalogUnion ws' := by
  have hsort : (ws.insertionSort fun a b => catalogLe a b = true) =
      ws'.insertionSort fun a b => catalogLe a b = true := by
    simp only [catalogLe_eq]
    apply sort_by_key (fun c : SourceCatalog => (c.groupID, c.sourceID)) h
    intro a ha b hb hkey
    exact List.inj_on_of_nodup_map hdistinct ha hb (Prod.mk.inj hkey).2
  unfold buildCatalogUnion
  rw [hsort]

/-! ## Owners -/

theorem mem_addOwners {s : String} {c : SourceCatalog} {nodes : List CatalogNode} {owners : Owners}
    {o : String × String × String} :
    o ∈ nodes.foldl (addOwner s c) owners ↔ o ∈ owners ∨
      ∃ n ∈ nodes, trim n.identifier ≠ "" ∧ o = (trim n.identifier, c.nodeGroup n, s) := by
  induction nodes generalizing owners with
  | nil => simp
  | cons n nodes ih =>
    rw [List.foldl_cons, ih]
    by_cases hname : trim n.identifier = ""
    · simp [addOwner, hname]
    · have hinsert : o ∈ addOwner s c owners n ↔
          o = (trim n.identifier, c.nodeGroup n, s) ∨ o ∈ owners := by
        rw [addOwner, if_neg hname, List.mem_insert_iff]
      rw [hinsert]
      constructor
      · rintro ((hnew | hold) | ⟨m, hm, hmore⟩)
        · exact .inr ⟨n, List.mem_cons_self, hname, hnew⟩
        · exact .inl hold
        · exact .inr ⟨m, List.mem_cons_of_mem _ hm, hmore⟩
      · rintro (hold | ⟨m, hm, hmname, hnew⟩)
        · exact .inl (.inr hold)
        · rcases List.mem_cons.mp hm with rfl | hm
          · exact .inl (.inl hnew)
          · exact .inr ⟨m, hm, hmname, hnew⟩

theorem nodup_addOwners {s : String} {c : SourceCatalog} {nodes : List CatalogNode}
    {owners : Owners} (h : owners.Nodup) : (nodes.foldl (addOwner s c) owners).Nodup := by
  induction nodes generalizing owners with
  | nil => exact h
  | cons n nodes ih =>
    rw [List.foldl_cons]
    apply ih
    unfold addOwner
    dsimp only
    split_ifs
    · exact h
    · exact h.insert

variable (ranges ranges' : Ranges) {working : Map String SourceCatalog}

theorem mem_collectOwners {i g s : String} :
    (i, g, s) ∈ collectOwners ranges working ↔ ∃ c, working.lookup s = some c ∧
      ∃ n ∈ c.nodes, trim n.identifier ≠ "" ∧ trim n.identifier = i ∧ c.nodeGroup n = g := by
  have hfold : ∀ (keys : List String) (owners : Owners),
      (i, g, s) ∈ keys.foldl (addOwners working) owners ↔
      (i, g, s) ∈ owners ∨ (s ∈ keys ∧ ∃ c, working.lookup s = some c ∧
        ∃ n ∈ c.nodes, trim n.identifier ≠ "" ∧ trim n.identifier = i ∧ c.nodeGroup n = g) := by
    intro keys
    induction keys with
    | nil => simp
    | cons k keys ih =>
      intro owners
      rw [List.foldl_cons, ih, addOwners]
      cases hk : working.lookup k with
      | none =>
        dsimp only
        constructor
        · rintro (hold | ⟨hs, hc⟩)
          · exact .inl hold
          · exact .inr ⟨List.mem_cons_of_mem _ hs, hc⟩
        · rintro (hold | ⟨hs, c, hc, hn⟩)
          · exact .inl hold
          · rcases List.mem_cons.mp hs with rfl | hs
            · rw [hk] at hc
              cases hc
            · exact .inr ⟨hs, c, hc, hn⟩
      | some d =>
        dsimp only
        rw [mem_addOwners]
        constructor
        · rintro ((hold | ⟨n, hn, hname, heq⟩) | ⟨hs, hc⟩)
          · exact .inl hold
          · obtain ⟨rfl, rfl, rfl⟩ : i = trim n.identifier ∧ g = d.nodeGroup n ∧ s = k := by
              simpa using heq
            exact .inr ⟨List.mem_cons_self, d, hk, n, hn, hname, rfl, rfl⟩
          · exact .inr ⟨List.mem_cons_of_mem _ hs, hc⟩
        · rintro (hold | ⟨hs, c, hc, n, hn, hname, hi, hg⟩)
          · exact .inl (.inl hold)
          · rcases List.mem_cons.mp hs with rfl | hs
            · obtain rfl : d = c := Option.some.inj (hk.symm.trans hc)
              exact .inl (.inr ⟨n, hn, hname, by rw [hi, hg]⟩)
            · exact .inr ⟨hs, c, hc, n, hn, hname, hi, hg⟩
  rw [collectOwners, hfold]
  constructor
  · rintro (hnil | ⟨-, hc⟩)
    · cases hnil
    · exact hc
  · rintro ⟨c, hc, hn⟩
    have hkey : s ∈ working.keys := AList.mem_keys.mpr (Map.mem_iff.mpr ⟨c, hc⟩)
    exact .inr ⟨(ranges.perm .owners working.keys).mem_iff.mpr hkey, c, hc, hn⟩

theorem nodup_collectOwners : (collectOwners ranges working).Nodup := by
  have hfold : ∀ (keys : List String) (owners : Owners), owners.Nodup →
      (keys.foldl (addOwners working) owners).Nodup := by
    intro keys
    induction keys with
    | nil => exact fun _ h => h
    | cons k keys ih =>
      intro owners h
      rw [List.foldl_cons]
      apply ih
      unfold addOwners
      split
      · exact h
      · exact nodup_addOwners h
  exact hfold _ [] List.nodup_nil

theorem collectOwners_perm :
    (collectOwners ranges working).Perm (collectOwners ranges' working) := by
  rw [List.perm_ext_iff_of_nodup (nodup_collectOwners ranges) (nodup_collectOwners ranges')]
  rintro ⟨i, g, s⟩
  rw [mem_collectOwners, mem_collectOwners]

theorem mem_groupsOf {owners : Owners} {i g : String} :
    g ∈ groupsOf owners i ↔ ∃ s, (i, g, s) ∈ owners := by
  simp [groupsOf]

theorem mem_sourcesOf {owners : Owners} {i g s : String} :
    s ∈ sourcesOf owners i g ↔ (i, g, s) ∈ owners := by
  simp only [sourcesOf, List.mem_map, List.mem_filter, Bool.and_eq_true, beq_iff_eq]
  constructor
  · rintro ⟨⟨_, _, _⟩, ⟨hmem, rfl, rfl⟩, rfl⟩
    exact hmem
  · exact fun hmem => ⟨(i, g, s), ⟨hmem, rfl, rfl⟩, rfl⟩

/-- Two of the distinct elements of a list. -/
theorem two_le_length {α : Type} {l : List α} (h : l.Nodup) :
    ¬ l.length < 2 ↔ ∃ a ∈ l, ∃ b ∈ l, a ≠ b := by
  cases l with
  | nil => simp
  | cons a l =>
    cases l with
    | nil => simp
    | cons b l =>
      have hne : a ≠ b := by
        rintro rfl
        simp at h
      constructor
      · exact fun _ => ⟨a, by simp, b, by simp, hne⟩
      · intro _
        simp

/-- The identifier stands in more than one group. -/
def Crosses (owners : Owners) (i : String) : Prop :=
  ∃ g s g' s', (i, g, s) ∈ owners ∧ (i, g', s') ∈ owners ∧ g ≠ g'

theorem crosses_iff {owners : Owners} {i : String} :
    ¬ (groupsOf owners i).length < 2 ↔ Crosses owners i := by
  have hnodup : (groupsOf owners i).Nodup := List.nodup_dedup _
  rw [two_le_length hnodup]
  constructor
  · rintro ⟨g, hg, g', hg', hne⟩
    obtain ⟨s, hs⟩ := mem_groupsOf.mp hg
    obtain ⟨s', hs'⟩ := mem_groupsOf.mp hg'
    exact ⟨g, s, g', s', hs, hs', hne⟩
  · rintro ⟨g, s, g', s', hs, hs', hne⟩
    exact ⟨g, mem_groupsOf.mpr ⟨s, hs⟩, g', mem_groupsOf.mpr ⟨s', hs'⟩, hne⟩

/-- The sources set apart are those with an identifier in several groups. -/
theorem mem_crossSources {owners : Owners} {s : String} :
    s ∈ (crossConflicts ranges owners).flatMap (·.1) ↔
      ∃ i g, (i, g, s) ∈ owners ∧ Crosses owners i := by
  simp only [crossConflicts, List.mem_flatMap, List.mem_filterMap]
  constructor
  · rintro ⟨x, ⟨i, -, hx⟩, hs⟩
    unfold crossConflict at hx
    dsimp only at hx
    split_ifs at hx with hfew
    cases hx
    obtain ⟨g, -, hs⟩ := List.mem_flatMap.mp hs
    exact ⟨i, g, mem_sourcesOf.mp ((ranges.perm _ _).mem_iff.mp hs), crosses_iff.mp hfew⟩
  · rintro ⟨i, g, hmem, hcross⟩
    have hid : i ∈ identifiersOf owners := by
      rw [identifiersOf, List.mem_dedup]
      exact List.mem_map.mpr ⟨(i, g, s), hmem, rfl⟩
    obtain ⟨d, hsome⟩ : ∃ d, crossConflict ranges owners i =
        some ((ranges.visit (.groups i) (groupsOf owners i)).flatMap fun g =>
          ranges.visit (.sources i g) (sourcesOf owners i g), d) :=
      ⟨_, if_neg (crosses_iff.mpr hcross)⟩
    refine ⟨_, ⟨i, (ranges.perm _ _).mem_iff.mpr hid, hsome⟩, List.mem_flatMap.mpr ⟨g, ?_, ?_⟩⟩
    · exact (ranges.perm _ _).mem_iff.mpr (mem_groupsOf.mpr ⟨s, hmem⟩)
    · exact (ranges.perm _ _).mem_iff.mpr (mem_sourcesOf.mpr hmem)

/-! ## Details -/

theorem groupsOf_perm {owners owners' : Owners} (h : owners.Perm owners') (i : String) :
    (groupsOf owners i).Perm (groupsOf owners' i) := ((h.filter _).map _).dedup

/-- The conflict of an identifier does not depend on the order of the loops. -/
theorem crossConflict_detail {owners owners' : Owners} (h : owners.Perm owners') (i : String) :
    (crossConflict ranges owners i).map (·.2) = (crossConflict ranges' owners' i).map (·.2) := by
  have hgroups := groupsOf_perm h i
  unfold crossConflict
  dsimp only
  rw [hgroups.length_eq]
  split_ifs
  · rfl
  · have hvisited : (ranges.visit (.groups i) (groupsOf owners i)).Perm
        (ranges'.visit (.groups i) (groupsOf owners' i)) :=
      (ranges.perm _ _).trans (hgroups.trans (ranges'.perm _ _).symm)
    have hsources : ((ranges.visit (.groups i) (groupsOf owners i)).flatMap fun g =>
          ranges.visit (.sources i g) (sourcesOf owners i g)).Perm
        ((ranges'.visit (.groups i) (groupsOf owners' i)).flatMap fun g =>
          ranges'.visit (.sources i g) (sourcesOf owners' i g)) := by
      apply List.Perm.flatMap hvisited
      intro g _
      exact (ranges.perm _ _).trans (((h.filter _).map _).trans (ranges'.perm _ _).symm)
    simp only [Option.map_some, sortTexts_perm hvisited, sortTexts_perm hsources]

theorem crossDetails_perm {owners owners' : Owners} (h : owners.Perm owners') :
    ((crossConflicts ranges owners).map (·.2)).Perm ((crossConflicts ranges' owners').map (·.2)) := by
  have hids : (ranges.visit .identifiers (identifiersOf owners)).Perm
      (ranges'.visit .identifiers (identifiersOf owners')) :=
    (ranges.perm _ _).trans (((h.map _).dedup).trans (ranges'.perm _ _).symm)
  have hfun : (fun i => (crossConflict ranges owners i).map (·.2)) =
      fun i => (crossConflict ranges' owners' i).map (·.2) :=
    funext fun i => crossConflict_detail ranges ranges' h i
  rw [crossConflicts, crossConflicts, List.map_filterMap, List.map_filterMap, hfun]
  exact hids.filterMap _

theorem crossDetails_distinct (owners : Owners) :
    ((crossConflicts ranges owners).map fun x => x.2.identifier).Nodup := by
  have hnodup : (ranges.visit .identifiers (identifiersOf owners)).Nodup :=
    (ranges.perm _ _).nodup_iff.mpr (List.nodup_dedup _)
  have hidentifier : ∀ i x, crossConflict ranges owners i = some x → x.2.identifier = i := by
    intro i x hx
    unfold crossConflict at hx
    dsimp only at hx
    split_ifs at hx
    cases hx
    rfl
  rw [crossConflicts, List.map_filterMap]
  apply hnodup.filterMap
  intro i j k hi hj
  obtain ⟨x, hx, rfl⟩ := Option.map_eq_some_iff.mp hi
  obtain ⟨y, hy, hk⟩ := Option.map_eq_some_iff.mp hj
  rw [← hidentifier i x hx, ← hidentifier j y hy, hk]

/-- The sorted conflicts: those across groups in any order, the others in a fixed one. -/
theorem details_eq {owners owners' : Owners} (h : owners.Perm owners')
    (rest : List CatalogConflictDetail) :
    (((crossConflicts ranges owners).map (·.2) ++ rest).insertionSort fun a b => detailLe a b = true) =
      ((crossConflicts ranges' owners').map (·.2) ++ rest).insertionSort
        fun a b => detailLe a b = true := by
  simp only [detailLe_eq]
  apply insertionSort_append_eq (crossDetails_perm ranges ranges' h)
  intro a ha b hb
  by_cases hab : a = b
  · exact .inl hab
  · right
    rintro ⟨hle, hge⟩
    have hid : a.identifier = b.identifier := (Prod.mk.inj (pairLe_antisymm hle hge)).1
    have hdistinct := crossDetails_distinct ranges owners
    have hmap : (crossConflicts ranges owners).map (fun x => x.2.identifier) =
        ((crossConflicts ranges owners).map (·.2)).map (·.identifier) := by
      rw [List.map_map]
      rfl
    rw [hmap] at hdistinct
    exact hab (List.inj_on_of_nodup_map hdistinct ha hb hid)

end RcdServer.Catalog
