import RcdServer.Catalog.Union
import RcdServer.Lib.Sorting

/-!
# Owners of identifiers

What `BuildCatalogUnion` has found out after some of the nodes: which sources are in conflict on
their own account, and for every group and identifier the valid nodes that came under it. The first
of them is the owner, and once two shapes have come every source among them is in conflict.
-/
namespace RcdServer.Catalog

open Lib Lib.Text Lib.Sorting

/-! ## Shapes -/

/-- What has to agree among the nodes under one identifier. -/
def shape (n : CatalogNode) : NodeClass × DataType × Int32 × Option (List Argument × List Argument) :=
  (n.nodeClass, n.dataType, n.valueRank,
    if n.nodeClass = .method then some (n.inputArguments, n.outputArguments) else none)

theorem sameShape_iff {a b : CatalogNode} : sameShape a b = true ↔ shape a = shape b := by
  unfold sameShape shape
  by_cases hclass : a.nodeClass = b.nodeClass
  · by_cases htype : a.dataType = b.dataType
    · by_cases hrank : a.valueRank = b.valueRank
      · by_cases hmethod : b.nodeClass = .method
        · simp [hclass, htype, hrank, hmethod]
        · simp [hclass, htype, hrank, hmethod]
      · simp [hrank]
    · simp [htype]
  · simp [hclass]

theorem sameShape_false {a b : CatalogNode} : sameShape a b = false ↔ shape a ≠ shape b := by
  rw [ne_eq, ← sameShape_iff, Bool.not_eq_true]

/-- A command method or command variable has the signature it needs. -/
def validNode (c : SourceCatalog) (n : CatalogNode) : Bool :=
  !(decide (n.nodeClass = .method) && !validCommandMethod n) &&
    !(decide (n.nodeClass = .variable) && c.commands n && !validCommandVariable n)

/-! ## What has been found out -/

/-- A source and its node under some identifier. -/
abbrev Entry := String × CatalogNode

/-- Nodes of two shapes. -/
def Clashes (l : List Entry) : Prop := ∃ a ∈ l, ∃ b ∈ l, shape a.2 ≠ shape b.2

theorem Clashes.mono {l m : List Entry} (h : Clashes l) (hsub : l ⊆ m) : Clashes m := by
  obtain ⟨a, ha, b, hb, hne⟩ := h
  exact ⟨a, hsub ha, b, hsub hb, hne⟩

theorem not_clashes_single (e : Entry) : ¬ Clashes [e] := by
  rintro ⟨a, ha, b, hb, hne⟩
  rw [List.mem_singleton] at ha hb
  exact hne (by rw [ha, hb])

/-- Nodes of one shape clash with a further one exactly if the first does. -/
theorem clashes_snoc {first : Entry} {rest : List Entry} {e : Entry}
    (h : ¬ Clashes (first :: rest)) :
    Clashes (first :: rest ++ [e]) ↔ shape first.2 ≠ shape e.2 := by
  have hsame : ∀ a ∈ first :: rest, shape a.2 = shape first.2 := by
    intro a ha
    by_contra hne
    exact h ⟨a, ha, first, List.mem_cons_self, hne⟩
  constructor
  · rintro ⟨a, ha, b, hb, hne⟩ heq
    have hall : ∀ x ∈ first :: rest ++ [e], shape x.2 = shape first.2 := by
      intro x hx
      rcases List.mem_append.mp hx with hx | hx
      · exact hsame x hx
      · rw [List.mem_singleton.mp hx, heq]
    exact hne ((hall a ha).trans (hall b hb).symm)
  · intro hne
    exact ⟨first, by simp, e, by simp, hne⟩

/-- The record of the nodes that came under an identifier: the first of them, their sources and,
once they clash, the conflict that names these sources. -/
def OwnerOf (conflicts : List CatalogConflictDetail) (groupID identifier : String) :
    List Entry → Option NodeOwner → Prop
  | [], o => o = none
  | first :: rest, o => ∃ index,
      o = some ⟨first.2, (first :: rest).map Prod.fst, index⟩ ∧
      (index = none ↔ ¬ Clashes (first :: rest)) ∧
      ∀ k, index = some k → ∃ d, conflicts[k]? = some d ∧ d.groupID = groupID ∧
        d.identifier = identifier ∧ d.sourceIDs = (first :: rest).map Prod.fst

structure Inv (p : Progress) (bad : String → Prop) (entries : String → String → List Entry) :
    Prop where
  owners : ∀ g i, OwnerOf p.union.conflicts g i (entries g i) (p.owners g i)
  marked : ∀ s, (∃ d ∈ p.union.conflicts, s ∈ d.sourceIDs) ↔
    bad s ∨ ∃ g i, s ∈ (entries g i).map Prod.fst ∧ Clashes (entries g i)
  nodes : ∀ g i, p.union.node g i = (entries g i).head?.map Prod.snd

/-- Conflicts at other places may come and change. -/
theorem OwnerOf.frame {old new : List CatalogConflictDetail} {g i : String} {l : List Entry}
    {o : Option NodeOwner} (h : OwnerOf old g i l o)
    (hframe : ∀ (k : Nat) (d : CatalogConflictDetail), old[k]? = some d → d.groupID = g →
      d.identifier = i → new[k]? = some d) : OwnerOf new g i l o := by
  cases l with
  | nil => exact h
  | cons first rest =>
    obtain ⟨index, ho, hclash, hdetail⟩ := h
    refine ⟨index, ho, hclash, fun k hk => ?_⟩
    obtain ⟨d, hd, hg, hi, hids⟩ := hdetail k hk
    exact ⟨d, hframe k d hd hg hi, hg, hi, hids⟩

theorem getElem?_snoc {l : List CatalogConflictDetail} {k : Nat} {d : CatalogConflictDetail}
    (h : l[k]? = some d) (e : CatalogConflictDetail) : (l ++ [e])[k]? = some d := by
  rw [List.getElem?_append_left (List.getElem?_eq_some_iff.mp h).1, h]

variable {p : Progress} {bad : String → Prop} {entries : String → String → List Entry}

/-- A source is marked on its own account. -/
theorem Inv.mark (h : Inv p bad entries) {s : String} {d : CatalogConflictDetail}
    (hd : d.sourceIDs = [s]) : Inv (p.mark d) (fun t => bad t ∨ t = s) entries where
  owners := fun g i => (h.owners g i).frame fun _ _ hold _ _ => getElem?_snoc hold d
  marked := by
    intro t
    show (∃ e ∈ p.union.conflicts ++ [d], t ∈ e.sourceIDs) ↔ _
    have hold := h.marked t
    constructor
    · rintro ⟨e, he, ht⟩
      rcases List.mem_append.mp he with he | he
      · rcases hold.mp ⟨e, he, ht⟩ with hbad | hclash
        · exact .inl (.inl hbad)
        · exact .inr hclash
      · rw [List.mem_singleton.mp he, hd, List.mem_singleton] at ht
        exact .inl (.inr ht)
    · rintro ((hbad | rfl) | hclash)
      · obtain ⟨e, he, ht⟩ := hold.mpr (.inl hbad)
        exact ⟨e, List.mem_append_left _ he, ht⟩
      · exact ⟨d, by simp, by simp [hd]⟩
      · obtain ⟨e, he, ht⟩ := hold.mpr (.inr hclash)
        exact ⟨e, List.mem_append_left _ he, ht⟩
  nodes := h.nodes

theorem Inv.congr {bad' : String → Prop} (h : Inv p bad entries) (hbad : ∀ s, bad s ↔ bad' s) :
    Inv p bad' entries := by
  obtain rfl : bad = bad' := funext fun s => propext (hbad s)
  exact h

/-- A node more under one identifier of one group. -/
def push (entries : String → String → List Entry) (g i : String) (e : Entry) :
    String → String → List Entry :=
  Function.update entries g (Function.update (entries g) i (entries g i ++ [e]))

theorem push_self (g i : String) (e : Entry) : push entries g i e g i = entries g i ++ [e] := by
  simp [push]

theorem update_other {α : Type} {f : String → String → α} {g i g' i' : String} {a : α}
    (hne : ¬ (g' = g ∧ i' = i)) :
    Function.update f g (Function.update (f g) i a) g' i' = f g' i' := by
  by_cases hg : g' = g
  · subst hg
    have hi : i' ≠ i := fun hi => hne ⟨rfl, hi⟩
    simp [hi]
  · simp [hg]

theorem push_other {g i g' i' : String} {e : Entry} (hne : ¬ (g' = g ∧ i' = i)) :
    push entries g i e g' i' = entries g' i' := update_other hne

theorem setOwner_owners (p : Progress) (g i : String) (o : NodeOwner) (g' i' : String) :
    (p.setOwner g i o).owners g' i' = if g' = g ∧ i' = i then some o else p.owners g' i' := by
  by_cases hsame : g' = g ∧ i' = i
  · obtain ⟨rfl, rfl⟩ := hsame
    simp [Progress.setOwner]
  · rw [if_neg hsame]
    exact update_other hsame

theorem node_setNode (u : CatalogUnion) (g : String) (n : CatalogNode) (g' i' : String) :
    (u.setNode g n).node g' i' = if g' = g ∧ i' = n.identifier then some n else u.node g' i' := by
  unfold CatalogUnion.setNode CatalogUnion.node
  rw [Map.lookup_insert_eq]
  by_cases hg : g' = g
  · subst hg
    rw [if_pos rfl, Option.bind_some, Map.lookup_insert_eq]
    by_cases hi : i' = n.identifier
    · simp [hi]
    · cases hlook : u.groups.lookup g' with
      | none => simp [hi, Option.getD]
      | some nodes => simp [hi]
  · simp [hg]

theorem node_openGroup (u : CatalogUnion) (g g' i' : String) :
    (u.openGroup g).node g' i' = u.node g' i' := by
  unfold CatalogUnion.openGroup CatalogUnion.node
  dsimp only
  split_ifs with hmem
  · rfl
  · rw [Map.lookup_insert_eq]
    split_ifs with hg
    · subst hg
      simp [AList.lookup_eq_none.mpr hmem]
    · rfl

/-- The sources named in a changed list of conflicts. -/
theorem mem_modify {l : List CatalogConflictDetail} {k : Nat} {d : CatalogConflictDetail}
    (hd : l[k]? = some d) (s t : String) :
    (∃ e ∈ l.modify k (fun e => { e with sourceIDs := e.sourceIDs ++ [s] }), t ∈ e.sourceIDs) ↔
      (∃ e ∈ l, t ∈ e.sourceIDs) ∨ t = s := by
  constructor
  · rintro ⟨e, he, ht⟩
    obtain ⟨j, hj⟩ := List.mem_iff_getElem?.mp he
    by_cases hkj : k = j
    · subst hkj
      rw [List.getElem?_modify_eq, hd] at hj
      obtain rfl : { d with sourceIDs := d.sourceIDs ++ [s] } = e := Option.some.inj hj
      rcases List.mem_append.mp ht with ht | ht
      · exact .inl ⟨d, List.mem_of_getElem? hd, ht⟩
      · exact .inr (List.mem_singleton.mp ht)
    · rw [List.getElem?_modify_ne _ _ hkj] at hj
      exact .inl ⟨e, List.mem_of_getElem? hj, ht⟩
  · have hnew : { d with sourceIDs := d.sourceIDs ++ [s] } ∈
        l.modify k (fun e => { e with sourceIDs := e.sourceIDs ++ [s] }) := by
      rw [List.mem_iff_getElem?]
      exact ⟨k, by rw [List.getElem?_modify_eq, hd]; rfl⟩
    rintro (⟨e, he, ht⟩ | rfl)
    · obtain ⟨j, hj⟩ := List.mem_iff_getElem?.mp he
      by_cases hkj : k = j
      · subst hkj
        obtain rfl : d = e := Option.some.inj (hd.symm.trans hj)
        exact ⟨_, hnew, List.mem_append_left _ ht⟩
      · exact ⟨e, List.mem_iff_getElem?.mpr ⟨j, by rw [List.getElem?_modify_ne _ _ hkj, hj]⟩, ht⟩
    · exact ⟨_, hnew, by simp⟩

/-- The nodes that came, with one more, clash somewhere. -/
theorem exists_clashes_push {g i : String} {e : Entry} {t : String} :
    (∃ g' i', t ∈ (push entries g i e g' i').map Prod.fst ∧ Clashes (push entries g i e g' i')) ↔
      (∃ g' i', ¬ (g' = g ∧ i' = i) ∧ t ∈ (entries g' i').map Prod.fst ∧ Clashes (entries g' i')) ∨
        (t ∈ (entries g i ++ [e]).map Prod.fst ∧ Clashes (entries g i ++ [e])) := by
  constructor
  · rintro ⟨g', i', ht, hclash⟩
    by_cases hsame : g' = g ∧ i' = i
    · obtain ⟨rfl, rfl⟩ := hsame
      rw [push_self] at ht hclash
      exact .inr ⟨ht, hclash⟩
    · rw [push_other hsame] at ht hclash
      exact .inl ⟨g', i', hsame, ht, hclash⟩
  · rintro (⟨g', i', hne, ht, hclash⟩ | ⟨ht, hclash⟩)
    · exact ⟨g', i', by rwa [push_other hne], by rwa [push_other hne]⟩
    · exact ⟨g, i, by rwa [push_self], by rwa [push_self]⟩

/-- `joinOwner` notes a further node, by cases on what had come before it. -/
theorem Inv.join (h : Inv p bad entries) (s g : String) (n : CatalogNode) :
    Inv (joinOwner s g n p) bad (push entries g n.identifier (s, n)) := by
  have howner := h.owners g n.identifier
  have hothers : ∀ {q : Progress} {o : NodeOwner},
      (∀ g' i', q.owners g' i' = if g' = g ∧ i' = n.identifier then some o else p.owners g' i') →
      (∀ (k : Nat) (d : CatalogConflictDetail), p.union.conflicts[k]? = some d →
        ¬ (d.groupID = g ∧ d.identifier = n.identifier) → q.union.conflicts[k]? = some d) →
      OwnerOf q.union.conflicts g n.identifier (entries g n.identifier ++ [(s, n)]) (some o) →
      ∀ g' i', OwnerOf q.union.conflicts g' i' (push entries g n.identifier (s, n) g' i')
        (q.owners g' i') := by
    intro q o hq hframe hself g' i'
    rw [hq]
    by_cases hsame : g' = g ∧ i' = n.identifier
    · obtain ⟨rfl, rfl⟩ := hsame
      rw [push_self, if_pos ⟨rfl, rfl⟩]
      exact hself
    · rw [push_other hsame, if_neg hsame]
      exact (h.owners g' i').frame fun k d hd hg hi =>
        hframe k d hd fun hboth => hsame ⟨hg ▸ hboth.1, hi ▸ hboth.2⟩
  have hmarked : ∀ t, (∃ d ∈ p.union.conflicts, t ∈ d.sourceIDs) ↔
      bad t ∨ (∃ g' i', ¬ (g' = g ∧ i' = n.identifier) ∧ t ∈ (entries g' i').map Prod.fst ∧
        Clashes (entries g' i')) ∨
      (t ∈ (entries g n.identifier).map Prod.fst ∧ Clashes (entries g n.identifier)) := by
    intro t
    rw [h.marked]
    constructor
    · rintro (hbad | ⟨g', i', ht, hclash⟩)
      · exact .inl hbad
      · by_cases hsame : g' = g ∧ i' = n.identifier
        · obtain ⟨rfl, rfl⟩ := hsame
          exact .inr (.inr ⟨ht, hclash⟩)
        · exact .inr (.inl ⟨g', i', hsame, ht, hclash⟩)
    · rintro (hbad | ⟨g', i', -, ht, hclash⟩ | ⟨ht, hclash⟩)
      · exact .inl hbad
      · exact .inr ⟨g', i', ht, hclash⟩
      · exact .inr ⟨g, n.identifier, ht, hclash⟩
  have hkeep : ∀ first rest, entries g n.identifier = first :: rest →
      ∀ g' i', p.union.node g' i' =
        (push entries g n.identifier (s, n) g' i').head?.map Prod.snd := by
    intro first rest hentries g' i'
    rw [h.nodes]
    by_cases hsame : g' = g ∧ i' = n.identifier
    · obtain ⟨rfl, rfl⟩ := hsame
      rw [push_self, hentries]
      rfl
    · rw [push_other hsame]
  cases hentries : entries g n.identifier with
  | nil =>
    rw [hentries] at howner
    have hnone : p.owners g n.identifier = none := howner
    have hjoin : joinOwner s g n p =
        { p.setOwner g n.identifier ⟨n, [s], none⟩ with union := p.union.setNode g n } := by
      rw [joinOwner, hnone]
    rw [hjoin]
    refine ⟨hothers (setOwner_owners p _ _ _) (fun k d hd _ => hd) ?_, ?_, ?_⟩
    · rw [hentries]
      exact ⟨none, rfl, by simp [not_clashes_single], nofun⟩
    · intro t
      show (∃ d ∈ p.union.conflicts, t ∈ d.sourceIDs) ↔ _
      rw [hmarked, exists_clashes_push, hentries]
      have hempty : ¬ Clashes [] := by
        rintro ⟨a, ha, -⟩
        cases ha
      simp [hempty, not_clashes_single]
    · intro g' i'
      show (p.union.setNode g n).node g' i' = _
      rw [node_setNode]
      by_cases hsame : g' = g ∧ i' = n.identifier
      · obtain ⟨rfl, rfl⟩ := hsame
        rw [if_pos ⟨rfl, rfl⟩, push_self, hentries]
        rfl
      · rw [if_neg hsame, push_other hsame, h.nodes]
  | cons first rest =>
    rw [hentries] at howner
    obtain ⟨index, hsome, hclash, hdetail⟩ := howner
    have hids : (first :: rest).map Prod.fst ++ [s] = (first :: rest ++ [(s, n)]).map Prod.fst := by
      simp
    cases index with
    | some k =>
      obtain ⟨d, hd, hg, hi, hds⟩ := hdetail k rfl
      have hclashes : Clashes (first :: rest) := by
        by_contra hno
        cases hclash.mpr hno
      have hmore : Clashes (first :: rest ++ [(s, n)]) := hclashes.mono (List.subset_append_left _ _)
      have hjoin : joinOwner s g n p =
          { p.setOwner g n.identifier ⟨first.2, (first :: rest).map Prod.fst ++ [s], some k⟩ with
            union := { p.union with
              conflicts := p.union.conflicts.modify k fun d =>
                { d with sourceIDs := d.sourceIDs ++ [s] } } } := by
        rw [joinOwner, hsome]
      rw [hjoin]
      refine ⟨hothers (setOwner_owners p _ _ _) ?_ ?_, ?_, hkeep first rest hentries⟩
      · intro j e he hne
        have hkj : k ≠ j := by
          rintro rfl
          obtain rfl : d = e := Option.some.inj (hd.symm.trans he)
          exact hne ⟨hg, hi⟩
        show (p.union.conflicts.modify k _)[j]? = _
        rw [List.getElem?_modify_ne _ _ hkj, he]
      · rw [hentries, List.cons_append]
        refine ⟨some k, by rw [← List.cons_append, ← hids], by simpa using hmore, ?_⟩
        intro j hj
        obtain rfl : k = j := Option.some.inj hj
        refine ⟨{ d with sourceIDs := d.sourceIDs ++ [s] }, ?_, hg, hi, ?_⟩
        · show (p.union.conflicts.modify k _)[k]? = _
          rw [List.getElem?_modify_eq, hd]
          rfl
        · rw [← List.cons_append, ← hids]
          exact congrArg (· ++ [s]) hds
      · intro t
        show (∃ e ∈ p.union.conflicts.modify k _, t ∈ e.sourceIDs) ↔ _
        rw [mem_modify hd, hmarked, exists_clashes_push, hentries, ← hids]
        simp only [hclashes, hmore, and_true, List.mem_append, List.mem_singleton, or_assoc]
    | none =>
      have hquiet : ¬ Clashes (first :: rest) := hclash.mp rfl
      by_cases hshape : sameShape first.2 n = true
      · have hnone : ¬ Clashes (first :: rest ++ [(s, n)]) := by
          rw [clashes_snoc hquiet]
          exact not_not.mpr (sameShape_iff.mp hshape)
        have hjoin : joinOwner s g n p =
            p.setOwner g n.identifier ⟨first.2, (first :: rest).map Prod.fst ++ [s], none⟩ := by
          rw [joinOwner, hsome]
          simp only [hshape, Bool.not_true, Bool.false_eq_true, if_false]
        rw [hjoin]
        refine ⟨hothers (setOwner_owners p _ _ _) (fun k d hd _ => hd) ?_, ?_,
          hkeep first rest hentries⟩
        · rw [hentries, List.cons_append]
          exact ⟨none, by rw [← List.cons_append, ← hids], by simpa using hnone, nofun⟩
        · intro t
          show (∃ d ∈ p.union.conflicts, t ∈ d.sourceIDs) ↔ _
          rw [hmarked, exists_clashes_push, hentries]
          simp only [hquiet, hnone, and_false, or_false]
      · rw [Bool.not_eq_true] at hshape
        have hmore : Clashes (first :: rest ++ [(s, n)]) := by
          rw [clashes_snoc hquiet]
          exact sameShape_false.mp hshape
        obtain ⟨d, hjoin, hg, hi, hds⟩ : ∃ d, joinOwner s g n p =
            (p.setOwner g n.identifier ⟨first.2, (first :: rest).map Prod.fst ++ [s],
              some p.union.conflicts.length⟩).mark d ∧ d.groupID = g ∧
            d.identifier = n.identifier ∧ d.sourceIDs = (first :: rest).map Prod.fst ++ [s] := by
          refine ⟨⟨.typeMismatch, g, n.identifier, (first :: rest).map Prod.fst ++ [s],
            "same-name nodes have incompatible class, type, rank, or method signature"⟩,
            ?_, rfl, rfl, rfl⟩
          rw [joinOwner, hsome]
          simp only [hshape, Bool.not_false, if_true]
        rw [hjoin]
        refine ⟨hothers (setOwner_owners p _ _ _) (fun k e he _ => getElem?_snoc he d) ?_, ?_,
          hkeep first rest hentries⟩
        · rw [hentries, List.cons_append]
          refine ⟨some p.union.conflicts.length, by rw [← List.cons_append, ← hids],
            by simpa using hmore, ?_⟩
          intro k hk
          obtain rfl := Option.some.inj hk
          refine ⟨d, ?_, hg, hi, by rw [hds, hids]; rfl⟩
          show (p.union.conflicts ++ [d])[p.union.conflicts.length]? = _
          simp
        · intro t
          show (∃ e ∈ p.union.conflicts ++ [d], t ∈ e.sourceIDs) ↔ _
          have hsnoc : (∃ e ∈ p.union.conflicts ++ [d], t ∈ e.sourceIDs) ↔
              (∃ e ∈ p.union.conflicts, t ∈ e.sourceIDs) ∨ t ∈ d.sourceIDs := by
            simp only [List.mem_append, List.mem_singleton, or_and_right, exists_or, exists_eq_left]
          rw [hsnoc, hmarked, exists_clashes_push, hentries, hds, hids]
          simp only [hquiet, hmore, and_true, and_false, or_false, or_assoc]

end RcdServer.Catalog
