import Mathlib.Data.List.Induction
import RcdServer.Catalog.Owners

/-!
# The states of the sources

For catalogs in which no identifier stands in two groups `BuildCatalogUnion` succeeds. A source is
in conflict exactly if its own nodes are flawed or if one of its identifiers has come with
another shape from a source whose first node under it is valid too.
-/
namespace RcdServer.Catalog

open Lib Lib.Text Lib.Sorting

/-! ## One node -/

/-- Nodes without a name, under a name that came before, or of a bad signature. -/
def Flawed (c : SourceCatalog) (nodes : List CatalogNode) : Prop :=
  ∃ l n r, nodes = l ++ n :: r ∧ (trim n.identifier = "" ∨
    n.identifier ∈ l.map (·.identifier) ∨ validNode c n = false)

/-- The first node under an identifier, if it is valid and in the group. -/
def entriesOf (c : SourceCatalog) (nodes : List CatalogNode) (g i : String) : List Entry :=
  match nodes.find? fun n => n.identifier == i with
  | none => []
  | some n =>
    if trim i ≠ "" ∧ validNode c n = true ∧ c.nodeGroup n = g then [(c.sourceID, n)] else []

/-- No identifier stands in two groups. -/
def Consistent (ws : List SourceCatalog) : Prop :=
  ∀ c ∈ ws, ∀ n ∈ c.nodes, ∀ c' ∈ ws, ∀ n' ∈ c'.nodes, trim n.identifier ≠ "" →
    n.identifier = n'.identifier → c.nodeGroup n = c'.nodeGroup n'

/-- The groups that have been noted are those of nodes. -/
def Known (ws : List SourceCatalog) (p : Progress) : Prop :=
  ∀ i g, p.groupByIdentifier i = some g →
    ∃ c ∈ ws, ∃ n ∈ c.nodes, n.identifier = i ∧ c.nodeGroup n = g

theorem flawed_snoc {c : SourceCatalog} {nodes : List CatalogNode} {n : CatalogNode} :
    Flawed c (nodes ++ [n]) ↔ Flawed c nodes ∨ trim n.identifier = "" ∨
      n.identifier ∈ nodes.map (·.identifier) ∨ validNode c n = false := by
  constructor
  · rintro ⟨l, m, r, heq, hm⟩
    rcases List.eq_nil_or_concat r with rfl | ⟨r, last, rfl⟩
    · obtain ⟨rfl, hlast⟩ := List.append_inj' heq rfl
      obtain rfl : n = m := by simpa using hlast
      exact .inr hm
    · have heq' : nodes ++ [n] = (l ++ m :: r) ++ [last] := by simpa using heq
      obtain ⟨rfl, -⟩ := List.append_inj' heq' rfl
      exact .inl ⟨l, m, r, rfl, hm⟩
  · rintro (⟨l, m, r, rfl, hm⟩ | hn)
    · exact ⟨l, m, r ++ [n], by simp, hm⟩
    · exact ⟨nodes, n, [], rfl, hn⟩

theorem find?_none_iff {nodes : List CatalogNode} {i : String} :
    (nodes.find? fun n => n.identifier == i) = none ↔ i ∉ nodes.map (·.identifier) := by
  rw [List.find?_eq_none]
  simp

theorem entriesOf_snoc_same {c : SourceCatalog} {nodes : List CatalogNode} {n : CatalogNode}
    (h : trim n.identifier = "" ∨ n.identifier ∈ nodes.map (·.identifier) ∨ validNode c n = false)
    (g i : String) : entriesOf c (nodes ++ [n]) g i = entriesOf c nodes g i := by
  unfold entriesOf
  rw [List.find?_append]
  cases hfind : nodes.find? fun n => n.identifier == i with
  | some m => rfl
  | none =>
    by_cases hi : n.identifier = i
    · subst hi
      have hfresh := find?_none_iff.mp hfind
      have hno : ¬ (trim n.identifier ≠ "" ∧ validNode c n = true ∧ c.nodeGroup n = g) := by
        rintro ⟨hname, hvalid, -⟩
        rcases h with h | h | h
        · exact hname h
        · exact hfresh h
        · rw [h] at hvalid
          cases hvalid
      simp [hno]
    · simp [hi]

theorem entriesOf_snoc_new {c : SourceCatalog} {nodes : List CatalogNode} {n : CatalogNode}
    (hname : trim n.identifier ≠ "") (hfresh : n.identifier ∉ nodes.map (·.identifier))
    (hvalid : validNode c n = true) (entries : String → String → List Entry) :
    (fun g i => entries g i ++ entriesOf c (nodes ++ [n]) g i) =
      push (fun g i => entries g i ++ entriesOf c nodes g i) (c.nodeGroup n) n.identifier
        (c.sourceID, n) := by
  funext g i
  have hfind := find?_none_iff.mpr hfresh
  by_cases hsame : g = c.nodeGroup n ∧ i = n.identifier
  · obtain ⟨rfl, rfl⟩ := hsame
    rw [push_self, entriesOf, List.find?_append, entriesOf, hfind]
    simp [hname, hvalid]
  · rw [push_other hsame]
    congr 1
    unfold entriesOf
    rw [List.find?_append]
    cases hold : nodes.find? fun n => n.identifier == i with
    | some m => rfl
    | none =>
      by_cases hi : n.identifier = i
      · have hg : ¬ c.nodeGroup n = g := fun hg => hsame ⟨hg.symm, hi.symm⟩
        simp [hi, hg]
      · simp [hi]

/-- The state of the loop over the nodes of `c`, after some of them. -/
structure Visited (ws : List SourceCatalog) (c : SourceCatalog) (start : Progress)
    (bad : String → Prop) (entries : String → String → List Entry) (nodes : List CatalogNode)
    (x : Progress × Seen) : Prop where
  inv : Inv x.1 (fun s => bad s ∨ s = c.sourceID ∧ Flawed c nodes)
    fun g i => entries g i ++ entriesOf c nodes g i
  known : Known ws x.1
  seen : ∀ i, trim i ≠ "" → x.2 i = nodes.find? fun n => n.identifier == i
  states : x.1.union.sourceStates = start.union.sourceStates

theorem Inv.note {p : Progress} {bad : String → Prop} {entries : String → String → List Entry}
    (h : Inv p bad entries) (c : SourceCatalog) (n : CatalogNode) :
    Inv (noteNode c n p) bad entries where
  owners := h.owners
  marked := h.marked
  nodes := by
    intro g i
    rw [← h.nodes g i]
    exact node_openGroup p.union (c.nodeGroup n) g i

theorem Inv.regroup {p : Progress} {bad : String → Prop} {entries : String → String → List Entry}
    (h : Inv p bad entries) (i g : String) : Inv (p.setGroup i g) bad entries where
  owners := h.owners
  marked := h.marked
  nodes := h.nodes

theorem joinOwner_frame (s g : String) (n : CatalogNode) (p : Progress) :
    (joinOwner s g n p).groupByIdentifier = p.groupByIdentifier ∧
      (joinOwner s g n p).union.sourceStates = p.union.sourceStates := by
  unfold joinOwner
  dsimp only
  split
  · exact ⟨rfl, rfl⟩
  · split
    · exact ⟨rfl, rfl⟩
    · split
      · exact ⟨rfl, rfl⟩
      · exact ⟨rfl, rfl⟩

theorem validNode_iff {c : SourceCatalog} {n : CatalogNode} : validNode c n = true ↔
    ¬ (n.nodeClass = .method ∧ validCommandMethod n = false) ∧
      ¬ (n.nodeClass = .variable ∧ c.commands n = true ∧ validCommandVariable n = false) := by
  simp only [validNode, Bool.and_eq_true, Bool.not_eq_true', Bool.and_eq_false_iff,
    decide_eq_false_iff_not, Bool.not_eq_false']
  cases validCommandMethod n <;> cases validCommandVariable n <;> cases c.commands n <;> simp

section

variable {ws : List SourceCatalog} {c : SourceCatalog} {start : Progress} {bad : String → Prop}
  {entries : String → String → List Entry} {nodes : List CatalogNode} {x : Progress × Seen}
  {n : CatalogNode}

/-- A node that puts its source in conflict. -/
theorem Visited.mark (h : Visited ws c start bad entries nodes x) {p : Progress}
    {d : CatalogConflictDetail} (seen : Seen) (hd : d.sourceIDs = [c.sourceID])
    (hn : trim n.identifier = "" ∨ n.identifier ∈ nodes.map (·.identifier) ∨ validNode c n = false)
    (hp : Inv p (fun s => bad s ∨ s = c.sourceID ∧ Flawed c nodes)
      fun g i => entries g i ++ entriesOf c nodes g i)
    (hknown : Known ws p) (hstates : p.union.sourceStates = x.1.union.sourceStates)
    (hseen : ∀ i, trim i ≠ "" →
      seen i = (nodes ++ [n]).find? fun n => n.identifier == i) :
    Visited ws c start bad entries (nodes ++ [n]) (p.mark d, seen) where
  inv := by
    have hentries : (fun g i => entries g i ++ entriesOf c (nodes ++ [n]) g i) =
        fun g i => entries g i ++ entriesOf c nodes g i := by
      funext g i
      rw [entriesOf_snoc_same hn]
    rw [hentries]
    apply (hp.mark hd).congr
    intro s
    have hflawed : Flawed c (nodes ++ [n]) := flawed_snoc.mpr (.inr hn)
    constructor
    · rintro ((hbad | ⟨rfl, -⟩) | rfl)
      · exact .inl hbad
      · exact .inr ⟨rfl, hflawed⟩
      · exact .inr ⟨rfl, hflawed⟩
    · rintro (hbad | ⟨rfl, -⟩)
      · exact .inl (.inl hbad)
      · exact .inr rfl
  known := hknown
  seen := hseen
  states := hstates.trans h.states

/-- One round of the loop over the nodes. -/
theorem visitNode_ok (hcons : Consistent ws) (hc : c ∈ ws) (hn : n ∈ c.nodes)
    (h : Visited ws c start bad entries nodes x) :
    ∃ x', visitNode c x n = .ok x' ∧ Visited ws c start bad entries (nodes ++ [n]) x' := by
  have hnote := h.inv.note c n
  by_cases hname : trim n.identifier = ""
  · refine ⟨_, ?_, h.mark (p := noteNode c n x.1)
      (d := { nodeDetail c n .duplicateNode "empty node identifier" with identifier := "" })
      x.2 rfl (.inl hname) hnote h.known rfl ?_⟩
    · rw [visitNode, if_pos hname]
    · intro i hi
      have hne : n.identifier ≠ i := by
        rintro rfl
        exact hi hname
      rw [h.seen i hi, List.find?_append]
      simp [hne]
  · have henter : visitNode c x n = .ok (enterNode c n (noteNode c n x.1) x.2) := by
      rw [visitNode, if_neg hname]
      cases hgroup : (noteNode c n x.1).groupByIdentifier n.identifier with
      | none => rfl
      | some g =>
        obtain ⟨c', hc', n', hn', hi, rfl⟩ := h.known _ _ hgroup
        have hsame := hcons c hc n hn c' hc' n' hn' hname hi.symm
        simp [hsame]
    have hknown : Known ws ((noteNode c n x.1).setGroup n.identifier (c.nodeGroup n)) := by
      intro i g hg
      by_cases hi : i = n.identifier
      · subst hi
        simp only [Progress.setGroup, Function.update_self, Option.some.injEq] at hg
        exact ⟨c, hc, n, hn, rfl, hg⟩
      · simp only [Progress.setGroup, Function.update_of_ne hi] at hg
        exact h.known i g hg
    refine ⟨_, henter, ?_⟩
    have hgroups := hnote.regroup n.identifier (c.nodeGroup n)
    have hlook := h.seen n.identifier hname
    unfold enterNode
    dsimp only
    cases hseen : x.2 n.identifier with
    | some previous =>
      have hmem : n.identifier ∈ nodes.map (·.identifier) := by
        by_contra hfresh
        rw [find?_none_iff.mpr hfresh, hseen] at hlook
        cases hlook
      refine h.mark x.2 (by simp [nodeDetail]) (.inr (.inl hmem)) hgroups hknown rfl ?_
      intro i hi
      rw [h.seen i hi, List.find?_append]
      cases hold : nodes.find? fun n => n.identifier == i with
      | some m => rfl
      | none =>
        have hne : n.identifier ≠ i := by
          rintro rfl
          exact find?_none_iff.mp hold hmem
        simp [hne]
    | none =>
      have hfresh : n.identifier ∉ nodes.map (·.identifier) :=
        find?_none_iff.mp (hlook.symm.trans hseen)
      have hnext : ∀ i, trim i ≠ "" → Function.update x.2 n.identifier (some n) i =
          (nodes ++ [n]).find? fun n => n.identifier == i := by
        intro i hi
        rw [List.find?_append]
        by_cases hii : i = n.identifier
        · subst hii
          rw [find?_none_iff.mpr hfresh]
          simp
        · rw [Function.update_of_ne hii, h.seen i hi]
          simp [Ne.symm hii]
      by_cases hmethod : n.nodeClass = .method ∧ validCommandMethod n = false
      · have hinvalid : validNode c n = false := by
          rw [← Bool.not_eq_true, validNode_iff]
          exact fun hvalid => hvalid.1 hmethod
        rw [if_pos hmethod]
        exact h.mark _ rfl (.inr (.inr hinvalid)) hgroups hknown rfl hnext
      · by_cases hvariable : n.nodeClass = .variable ∧ c.commands n = true ∧
            validCommandVariable n = false
        · have hinvalid : validNode c n = false := by
            rw [← Bool.not_eq_true, validNode_iff]
            exact fun hvalid => hvalid.2 hvariable
          rw [if_neg hmethod, if_pos hvariable]
          exact h.mark _ rfl (.inr (.inr hinvalid)) hgroups hknown rfl hnext
        · have hvalid : validNode c n = true := validNode_iff.mpr ⟨hmethod, hvariable⟩
          rw [if_neg hmethod, if_neg hvariable]
          obtain ⟨hmap, hstates⟩ := joinOwner_frame c.sourceID (c.nodeGroup n) n
            ((noteNode c n x.1).setGroup n.identifier (c.nodeGroup n))
          refine ⟨?_, ?_, hnext, hstates.trans h.states⟩
          · rw [entriesOf_snoc_new hname hfresh hvalid]
            apply (hgroups.join c.sourceID (c.nodeGroup n) n).congr
            intro s
            have hsame : Flawed c (nodes ++ [n]) ↔ Flawed c nodes := by
              rw [flawed_snoc]
              simp [hname, hfresh, hvalid]
            rw [hsame]
          · intro i g hg
            exact hknown i g (by rw [← hg, ← hmap])

theorem visitNodes_ok (hcons : Consistent ws) (hc : c ∈ ws) (more : List CatalogNode)
    (hmore : ∀ n ∈ more, n ∈ c.nodes) (h : Visited ws c start bad entries nodes x) :
    ∃ x', more.foldlM (visitNode c) x = .ok x' ∧
      Visited ws c start bad entries (nodes ++ more) x' := by
  induction more generalizing nodes x with
  | nil => exact ⟨x, rfl, by simpa using h⟩
  | cons n more ih =>
    obtain ⟨x', hok, hnext⟩ := visitNode_ok hcons hc (hmore n List.mem_cons_self) h
    obtain ⟨x'', hrest, hall⟩ := ih (fun m hm => hmore m (List.mem_cons_of_mem _ hm)) hnext
    refine ⟨x'', ?_, by simpa using hall⟩
    rw [List.foldlM_cons, hok]
    exact hrest

end

/-! ## All catalogs -/

/-- A blank or repeated identifier, or a bad command method or command variable. -/
def Faulty (c : SourceCatalog) : Prop :=
  (∃ n ∈ c.nodes, trim n.identifier = "") ∨ ¬ (c.nodes.map (·.identifier)).Nodup ∨
    ∃ n ∈ c.nodes, validNode c n = false

theorem nodup_iff_split {l : List CatalogNode} : (l.map (·.identifier)).Nodup ↔
    ∀ a n b, l = a ++ n :: b → n.identifier ∉ a.map (·.identifier) := by
  induction l using List.reverseRecOn with
  | nil => simp
  | append_singleton l m ih =>
    rw [List.map_append, List.nodup_append, ih]
    constructor
    · rintro ⟨hl, -, hm⟩ a n b heq
      rcases List.eq_nil_or_concat b with rfl | ⟨b, last, rfl⟩
      · obtain ⟨rfl, hlast⟩ := List.append_inj' heq rfl
        obtain rfl : m = n := by simpa using hlast
        exact fun hmem => hm _ hmem m.identifier (by simp) rfl
      · have heq' : l ++ [m] = (a ++ n :: b) ++ [last] := by simpa using heq
        obtain ⟨rfl, -⟩ := List.append_inj' heq' rfl
        exact hl a n b rfl
    · intro hall
      refine ⟨?_, by simp, ?_⟩
      · rintro a n b rfl
        exact hall a n (b ++ [m]) (by simp)
      · intro i hi j hj hij
        obtain rfl : j = m.identifier := by simpa using hj
        exact hall l m [] rfl (hij ▸ hi)

theorem flawed_iff_faulty (c : SourceCatalog) : Flawed c (nodesInOrder c) ↔ Faulty c := by
  have hperm : (nodesInOrder c).Perm c.nodes := List.perm_insertionSort _ _
  have hnodup : ((nodesInOrder c).map (·.identifier)).Nodup ↔ (c.nodes.map (·.identifier)).Nodup :=
    (hperm.map _).nodup_iff
  have hmem : ∀ n, n ∈ nodesInOrder c ↔ n ∈ c.nodes := fun n => hperm.mem_iff
  unfold Faulty
  rw [← hnodup, nodup_iff_split]
  simp only [← hmem]
  constructor
  · rintro ⟨l, n, r, heq, hn⟩
    have hn' : n ∈ nodesInOrder c := by simp [heq]
    rcases hn with hn | hn | hn
    · exact .inl ⟨n, hn', hn⟩
    · exact .inr (.inl fun hall => hall l n r heq hn)
    · exact .inr (.inr ⟨n, hn', hn⟩)
  · rintro (⟨n, hn, hname⟩ | hrepeat | ⟨n, hn, hvalid⟩)
    · obtain ⟨l, r, heq⟩ := List.append_of_mem hn
      exact ⟨l, n, r, heq, .inl hname⟩
    · push Not at hrepeat
      obtain ⟨l, n, r, heq, hmore⟩ := hrepeat
      exact ⟨l, n, r, heq, .inr (.inl hmore)⟩
    · obtain ⟨l, r, heq⟩ := List.append_of_mem hn
      exact ⟨l, n, r, heq, .inr (.inr hvalid)⟩

/-- The stable sort leaves the nodes under one identifier in their order. -/
theorem entriesOf_inOrder (c : SourceCatalog) (g i : String) :
    entriesOf c (nodesInOrder c) g i = entriesOf c c.nodes g i := by
  have hfind : ((nodesInOrder c).find? fun n => n.identifier == i) =
      c.nodes.find? fun n => n.identifier == i := by
    apply find?_insertionSort
    intro a _ b _ ha hb
    simp only [beq_iff_eq] at ha hb
    rw [ha, hb]
    rcases textLe_total i.toList i.toList with h | h <;> exact h
  unfold entriesOf
  rw [hfind]

/-- The valid first nodes under an identifier of a group, catalog by catalog. -/
def entriesOfAll (cs : List SourceCatalog) (g i : String) : List Entry :=
  cs.flatMap fun c => entriesOf c c.nodes g i

def startState (c : SourceCatalog) : CatalogState :=
  if c.state = .unset then .discovering else c.state

/-- The state of the loop over the catalogs, after some of them. -/
structure Gathered (ws cs : List SourceCatalog) (p : Progress) : Prop where
  inv : Inv p (fun s => ∃ c ∈ cs, c.sourceID = s ∧ Faulty c) (entriesOfAll cs)
  known : Known ws p
  present : ∀ c ∈ cs, p.union.sourceStates c.sourceID = some (startState c)
  absent : ∀ s, s ∉ cs.map (·.sourceID) → p.union.sourceStates s = none

/-- The pass when it has opened the source of a catalog. -/
def Progress.opened (p : Progress) (c : SourceCatalog) : Progress :=
  { p with
    union :=
      { p.union.openGroup c.groupID with
        sourceStates := Function.update p.union.sourceStates c.sourceID (some (startState c))
        sourceTopologies :=
          match c.topology with
          | some topology => Function.update p.union.sourceTopologies c.sourceID (some topology)
          | none => p.union.sourceTopologies
        sourceNodes := Function.update p.union.sourceNodes c.sourceID (some fun _ => none) } }

theorem visitCatalog_ok {ws cs : List SourceCatalog} {c : SourceCatalog} {p : Progress}
    (hcons : Consistent ws) (hc : c ∈ ws) (hid : trim c.sourceID ≠ "") (hgroup : trim c.groupID ≠ "")
    (hfresh : c.sourceID ∉ cs.map (·.sourceID)) (h : Gathered ws cs p) :
    ∃ p', visitCatalog p c = .ok p' ∧ Gathered ws (cs ++ [c]) p' := by
  let opened := p.opened c
  have hopened : Visited ws c opened (fun s => ∃ c ∈ cs, c.sourceID = s ∧ Faulty c)
      (entriesOfAll cs) [] (opened, fun _ => none) := by
    refine ⟨?_, h.known, fun i _ => rfl, rfl⟩
    have hentries : (fun g i => entriesOfAll cs g i ++ entriesOf c [] g i) = entriesOfAll cs := by
      funext g i
      simp [entriesOf]
    rw [hentries]
    have hbase : Inv opened (fun s => ∃ c ∈ cs, c.sourceID = s ∧ Faulty c) (entriesOfAll cs) := by
      refine ⟨h.inv.owners, h.inv.marked, fun g i => ?_⟩
      rw [← h.inv.nodes g i]
      exact node_openGroup p.union c.groupID g i
    apply hbase.congr
    intro s
    have hno : ¬ Flawed c [] := by
      rintro ⟨l, n, r, heq, -⟩
      simp at heq
    simp [hno]
  obtain ⟨x, hx, hvisited⟩ := visitNodes_ok hcons hc (nodesInOrder c)
    (fun n hn => (List.mem_insertionSort _).mp hn) hopened
  have hunknown : (p.union.sourceStates c.sourceID).isSome = false := by
    rw [h.absent _ hfresh]
    rfl
  refine ⟨x.1, ?_, ?_⟩
  · rw [visitCatalog, if_neg hid, if_neg hgroup, hunknown]
    show ((nodesInOrder c).foldlM (visitNode c) (opened, fun _ => none) >>= fun y => .ok y.1) = _
    rw [hx]
    rfl
  · rw [List.nil_append] at hvisited
    refine ⟨?_, hvisited.known, ?_, ?_⟩
    · have hentries : (fun g i => entriesOfAll cs g i ++ entriesOf c (nodesInOrder c) g i) =
          entriesOfAll (cs ++ [c]) := by
        funext g i
        rw [entriesOf_inOrder]
        simp [entriesOfAll]
      have hinv := hvisited.inv
      rw [hentries] at hinv
      apply hinv.congr
      intro s
      rw [flawed_iff_faulty]
      constructor
      · rintro (⟨d, hd, hs⟩ | ⟨rfl, hfaulty⟩)
        · exact ⟨d, List.mem_append_left _ hd, hs⟩
        · exact ⟨c, by simp, rfl, hfaulty⟩
      · rintro ⟨d, hd, hs, hfaulty⟩
        rcases List.mem_append.mp hd with hd | hd
        · exact .inl ⟨d, hd, hs, hfaulty⟩
        · obtain rfl : d = c := by simpa using hd
          exact .inr ⟨hs.symm, hfaulty⟩
    · intro d hd
      rw [hvisited.states]
      rcases List.mem_append.mp hd with hd | hd
      · have hne : d.sourceID ≠ c.sourceID := fun heq =>
          hfresh (heq ▸ List.mem_map_of_mem hd)
        show Function.update _ _ _ _ = _
        rw [Function.update_of_ne hne, h.present d hd]
      · obtain rfl : d = c := by simpa using hd
        exact Function.update_self _ _ _
    · intro s hs
      rw [hvisited.states]
      have hne : s ≠ c.sourceID := by
        rintro rfl
        exact hs (by simp)
      show Function.update _ _ _ _ = _
      rw [Function.update_of_ne hne]
      exact h.absent s fun hmem => hs (by simp only [List.map_append]; exact List.mem_append_left _ hmem)

theorem visitCatalogs_ok {ws : List SourceCatalog} (hcons : Consistent ws) (more : List SourceCatalog)
    (hmore : ∀ c ∈ more, c ∈ ws ∧ trim c.sourceID ≠ "" ∧ trim c.groupID ≠ "")
    {cs : List SourceCatalog} (hdistinct : ((cs ++ more).map (·.sourceID)).Nodup) {p : Progress}
    (h : Gathered ws cs p) :
    ∃ p', more.foldlM visitCatalog p = .ok p' ∧ Gathered ws (cs ++ more) p' := by
  induction more generalizing cs p with
  | nil => exact ⟨p, rfl, by simpa using h⟩
  | cons c more ih =>
    obtain ⟨⟨hc, hid, hgroup⟩, hrest⟩ := List.forall_mem_cons.mp hmore
    have hfresh : c.sourceID ∉ cs.map (·.sourceID) := by
      rw [List.map_append, List.nodup_append] at hdistinct
      intro hmem
      exact hdistinct.2.2 _ hmem c.sourceID (by simp) rfl
    obtain ⟨p', hok, hnext⟩ := visitCatalog_ok hcons hc hid hgroup hfresh h
    obtain ⟨p'', hmoreok, hall⟩ := ih hrest (by simpa using hdistinct) hnext
    refine ⟨p'', ?_, by simpa using hall⟩
    rw [List.foldlM_cons, hok]
    exact hmoreok

/-! ## The result -/

/-- The first node of the catalog under an identifier, if it is valid. -/
def First (c : SourceCatalog) (i : String) (n : CatalogNode) : Prop :=
  (c.nodes.find? fun n => n.identifier == i) = some n ∧ trim i ≠ "" ∧ validNode c n = true

theorem First.mem {c : SourceCatalog} {i : String} {n : CatalogNode} (h : First c i n) :
    n ∈ c.nodes ∧ n.identifier = i :=
  ⟨List.mem_of_find?_eq_some h.1, by simpa using List.find?_some h.1⟩

/-- Another valid first node under one of the identifiers has another shape. -/
def Clashing (ws : List SourceCatalog) (c : SourceCatalog) : Prop :=
  ∃ i n, First c i n ∧ ∃ c' ∈ ws, ∃ n', First c' i n' ∧ sameShape n n' = false

def Implicated (ws : List SourceCatalog) (c : SourceCatalog) : Prop := Faulty c ∨ Clashing ws c

theorem mem_entriesOfAll {cs : List SourceCatalog} {g i s : String} {n : CatalogNode} :
    (s, n) ∈ entriesOfAll cs g i ↔
      ∃ c ∈ cs, c.sourceID = s ∧ First c i n ∧ c.nodeGroup n = g := by
  rw [entriesOfAll, List.mem_flatMap]
  apply exists_congr
  intro c
  apply and_congr_right
  intro _
  unfold entriesOf First
  cases hfind : c.nodes.find? fun n => n.identifier == i with
  | none => simp
  | some m =>
    dsimp only
    split_ifs with hm
    · rw [List.mem_singleton, Prod.mk.injEq, Option.some.injEq]
      constructor
      · rintro ⟨rfl, rfl⟩
        exact ⟨rfl, ⟨rfl, hm.1, hm.2.1⟩, hm.2.2⟩
      · rintro ⟨rfl, ⟨rfl, -⟩, -⟩
        exact ⟨rfl, rfl⟩
    · constructor
      · intro h
        cases h
      · rintro ⟨-, ⟨heq, hname, hvalid⟩, hgroup⟩
        obtain rfl : m = n := Option.some.inj heq
        exact absurd ⟨hname, hvalid, hgroup⟩ hm

/-- What the sources in conflict have in common. -/
theorem marked_iff {ws : List SourceCatalog} (hcons : Consistent ws)
    (hdistinct : (ws.map (·.sourceID)).Nodup) {c : SourceCatalog} (hc : c ∈ ws) :
    ((∃ d ∈ ws, d.sourceID = c.sourceID ∧ Faulty d) ∨
      ∃ g i, c.sourceID ∈ (entriesOfAll ws g i).map Prod.fst ∧ Clashes (entriesOfAll ws g i)) ↔
      Implicated ws c := by
  have hunique : ∀ d ∈ ws, d.sourceID = c.sourceID → d = c :=
    fun d hd heq => List.inj_on_of_nodup_map hdistinct hd hc heq
  apply or_congr
  · constructor
    · rintro ⟨d, hd, heq, hfaulty⟩
      exact hunique d hd heq ▸ hfaulty
    · exact fun hfaulty => ⟨c, hc, rfl, hfaulty⟩
  · constructor
    · rintro ⟨g, i, hmem, ⟨s, a⟩, ha, ⟨t, b⟩, hb, hne⟩
      obtain ⟨⟨_, n⟩, hn, rfl⟩ := List.mem_map.mp hmem
      obtain ⟨d, hd, heq, hfirst, -⟩ := mem_entriesOfAll.mp hn
      obtain rfl := hunique d hd heq
      obtain ⟨ca, hca, -, hfa, -⟩ := mem_entriesOfAll.mp ha
      obtain ⟨cb, hcb, -, hfb, -⟩ := mem_entriesOfAll.mp hb
      by_cases hna : shape n = shape a
      · exact ⟨i, n, hfirst, cb, hcb, b, hfb, sameShape_false.mpr (hna ▸ hne)⟩
      · exact ⟨i, n, hfirst, ca, hca, a, hfa, sameShape_false.mpr hna⟩
    · rintro ⟨i, n, hfirst, c', hc', n', hfirst', hshape⟩
      obtain ⟨hn, hni⟩ := hfirst.mem
      obtain ⟨hn', hni'⟩ := hfirst'.mem
      have hgroup := hcons c hc n hn c' hc' n' hn' (hni ▸ hfirst.2.1) (hni.trans hni'.symm)
      refine ⟨c.nodeGroup n, i, ?_, (c.sourceID, n), ?_, (c'.sourceID, n'), ?_,
        sameShape_false.mp hshape⟩
      · exact List.mem_map.mpr ⟨(c.sourceID, n), mem_entriesOfAll.mpr ⟨c, hc, rfl, hfirst, rfl⟩, rfl⟩
      · exact mem_entriesOfAll.mpr ⟨c, hc, rfl, hfirst, rfl⟩
      · exact mem_entriesOfAll.mpr ⟨c', hc', rfl, hfirst', hgroup.symm⟩

theorem foldl_conflict (l : List String) (states : String → Option CatalogState) (s : String) :
    l.foldl (fun states sourceID => Function.update states sourceID (some .conflict)) states s =
      if s ∈ l then some .conflict else states s := by
  induction l generalizing states with
  | nil => simp
  | cons a l ih =>
    rw [List.foldl_cons, ih]
    by_cases hl : s ∈ l
    · simp [hl]
    · by_cases ha : s = a
      · subst ha
        simp [hl]
      · simp [hl, ha]

/-- The catalogs may be taken together: they have names, each a source of its own, and no
identifier stands in two groups. -/
structure Sound (ws : List SourceCatalog) : Prop where
  named : ∀ c ∈ ws, trim c.sourceID ≠ "" ∧ trim c.groupID ≠ ""
  distinct : (ws.map (·.sourceID)).Nodup
  consistent : Consistent ws

theorem Consistent.perm {ws ws' : List SourceCatalog} (h : Consistent ws)
    (hmem : ∀ c, c ∈ ws' ↔ c ∈ ws) : Consistent ws' :=
  fun c hc n hn c' hc' n' hn' => h c ((hmem c).mp hc) n hn c' ((hmem c').mp hc') n' hn'

theorem Clashing.congr {ws ws' : List SourceCatalog} (hmem : ∀ c, c ∈ ws' ↔ c ∈ ws)
    (c : SourceCatalog) : Implicated ws' c ↔ Implicated ws c := by
  unfold Implicated Clashing
  simp only [hmem]

structure Built (ws : List SourceCatalog) (u : CatalogUnion) : Prop where
  conflict : ∀ c ∈ ws, Implicated ws c → u.sourceStates c.sourceID = some .conflict
  clear : ∀ c ∈ ws, ¬ Implicated ws c → u.sourceStates c.sourceID = some (startState c)
  absent : ∀ s, s ∉ ws.map (·.sourceID) → u.sourceStates s = none
  /-- A node of a group is the valid first node of some source. -/
  nodes : ∀ g i n, u.node g i = some n → ∃ c ∈ ws, First c i n ∧ c.nodeGroup n = g
  offered : ∀ c ∈ ws, ∀ i n, First c i n → ∃ m, u.node (c.nodeGroup n) i = some m

/-- For sound catalogs `BuildCatalogUnion` succeeds and finds exactly the implicated sources. -/
theorem buildCatalogUnion_ok {ws : List SourceCatalog} (h : Sound ws) :
    ∃ u, buildCatalogUnion ws = .ok u ∧ Built ws u := by
  let ordered := ws.insertionSort fun a b => catalogLe a b
  have hperm : ordered.Perm ws := List.perm_insertionSort _ _
  have hmem : ∀ c, c ∈ ordered ↔ c ∈ ws := fun c => hperm.mem_iff
  have hdistinct : (ordered.map (·.sourceID)).Nodup := (hperm.map _).nodup_iff.mpr h.distinct
  have hcons : Consistent ordered := h.consistent.perm hmem
  have hempty : Gathered ordered [] ⟨.empty, fun _ => none, fun _ _ => none⟩ :=
    ⟨⟨fun _ _ => rfl, by simp [CatalogUnion.empty, entriesOfAll], fun _ _ => rfl⟩, nofun, by simp,
      fun _ _ => rfl⟩
  obtain ⟨p, hp, hall⟩ := visitCatalogs_ok hcons ordered
    (fun c hc => ⟨hc, h.named c ((hmem c).mp hc)⟩) (by simpa using hdistinct) hempty
  rw [List.nil_append] at hall
  have hmarked : ∀ s, (∃ d ∈ p.union.conflicts, s ∈ d.sourceIDs) ↔
      s ∈ (p.union.conflicts.map fun d =>
        { d with sourceIDs := dedupRuns (sortTexts d.sourceIDs) }).flatMap (·.sourceIDs) := by
    intro s
    simp only [List.mem_flatMap, List.mem_map, exists_exists_and_eq_and, mem_dedupRuns,
      mem_sortTexts]
  have hstates : ∀ s, (finish p.union).sourceStates s =
      if s ∈ (p.union.conflicts.map fun d =>
        { d with sourceIDs := dedupRuns (sortTexts d.sourceIDs) }).flatMap (·.sourceIDs)
      then some .conflict else p.union.sourceStates s := foldl_conflict _ _
  have himplicated : ∀ c ∈ ws, (∃ d ∈ p.union.conflicts, c.sourceID ∈ d.sourceIDs) ↔
      Implicated ws c := by
    intro c hc
    rw [hall.inv.marked, marked_iff hcons hdistinct ((hmem c).mpr hc), Clashing.congr hmem]
  refine ⟨finish p.union, ?_, ?_, ?_, ?_, ?_, ?_⟩
  · rw [buildCatalogUnion]
    show (ordered.foldlM visitCatalog _ >>= fun p => .ok (finish p.union)) = _
    rw [hp]
    rfl
  · intro c hc hin
    rw [hstates, if_pos ((hmarked _).mp ((himplicated c hc).mpr hin))]
  · intro c hc hout
    rw [hstates, if_neg fun hin => hout ((himplicated c hc).mp ((hmarked _).mpr hin))]
    exact hall.present c ((hmem c).mpr hc)
  · intro s hs
    have hs' : s ∉ ordered.map (·.sourceID) := fun hin => hs ((hperm.map _).mem_iff.mp hin)
    rw [hstates, if_neg, hall.absent s hs']
    rw [← hmarked, hall.inv.marked]
    rintro (⟨c, hc, rfl, -⟩ | ⟨g, i, hin, -⟩)
    · exact hs' (List.mem_map_of_mem hc)
    · obtain ⟨⟨_, n⟩, hn, rfl⟩ := List.mem_map.mp hin
      obtain ⟨c, hc, heq, -⟩ := mem_entriesOfAll.mp hn
      exact hs' (List.mem_map.mpr ⟨c, hc, heq⟩)
  · intro g i n hn
    obtain ⟨⟨s, _⟩, he, rfl⟩ := Option.map_eq_some_iff.mp ((hall.inv.nodes g i).symm.trans hn)
    obtain ⟨c, hc, -, hfirst⟩ := mem_entriesOfAll.mp (List.mem_of_mem_head? he)
    exact ⟨c, (hmem c).mp hc, hfirst⟩
  · intro c hc i n hfirst
    have hentry : (c.sourceID, n) ∈ entriesOfAll ordered (c.nodeGroup n) i :=
      mem_entriesOfAll.mpr ⟨c, (hmem c).mpr hc, rfl, hfirst, rfl⟩
    obtain ⟨e, rest, heq⟩ := List.exists_cons_of_ne_nil (List.ne_nil_of_mem hentry)
    exact ⟨e.2, (hall.inv.nodes _ i).trans (by rw [heq]; rfl)⟩

end RcdServer.Catalog
