import Mathlib.Data.List.Infix
import Mathlib.Data.List.Perm.Basic

/-!
# Leaves of a tree

A tree is what stands at each of its paths. To set a leaf replaces whatever stands at the path and
below it. Leaves whose paths have nothing below them are set independently of each other, and what
has been set together is the tree overlaid with them.
-/
namespace RcdServer.Lib.Leaves

variable {σ α : Type*}

/-- The tree with a leaf at the path. -/
def setLeaf [DecidableEq σ] (view : List σ → Option α) (path : List σ) (leaf : Option α) :
    List σ → Option α :=
  fun q => if q = path then leaf else if path <+: q then none else view q

/-- The tree with the edits in the place of what stood there. -/
def overlay [DecidableEq σ] (view : List σ → Option α) (edits : List (List σ × Option α)) :
    List σ → Option α :=
  fun q => (edits.lookup q).getD (view q)

/-- Below an edited path there is neither anything of the tree nor another edit. -/
def Separate (view : List σ → Option α) (edits : List (List σ × Option α)) : Prop :=
  ∀ e ∈ edits, ∀ q ≠ [], view (e.1 ++ q) = none ∧ ∀ e' ∈ edits, e'.1 ≠ e.1 ++ q

section

variable {view : List σ → Option α} {edits edits' : List (List σ × Option α)} {q : List σ}

theorem Separate.perm (hs : Separate view edits) (h : edits.Perm edits') :
    Separate view edits' := by
  intro e he q hq
  obtain ⟨hnone, hother⟩ := hs e (h.mem_iff.mpr he) q hq
  exact ⟨hnone, fun e' he' => hother e' (h.mem_iff.mpr he')⟩

theorem Separate.left (hs : Separate view (edits ++ edits')) : Separate view edits := by
  intro e he q hq
  obtain ⟨hnone, hother⟩ := hs e (List.mem_append_left _ he) q hq
  exact ⟨hnone, fun e' he' => hother e' (List.mem_append_left _ he')⟩

variable [DecidableEq σ]

theorem setLeaf_nil {s : σ} {p : List σ} {leaf : Option α} :
    setLeaf view (s :: p) leaf [] = view [] := by
  simp [setLeaf]

theorem setLeaf_cons {s : σ} {p : List σ} {leaf : Option α} :
    setLeaf view (s :: p) leaf (s :: q) = setLeaf (fun q => view (s :: q)) p leaf q := by
  simp [setLeaf, List.cons_prefix_cons]

theorem setLeaf_cons_ne {s s' : σ} {p : List σ} {leaf : Option α} (h : s' ≠ s) :
    setLeaf view (s :: p) leaf (s' :: q) = view (s' :: q) := by
  simp [setLeaf, List.cons_prefix_cons, h, Ne.symm h]

theorem overlay_nil : overlay view [] = view := rfl

theorem overlay_of_notMem (h : q ∉ edits.map (·.1)) : overlay view edits q = view q := by
  have hnone : edits.lookup q = none := by
    refine List.lookup_eq_none_iff.mpr fun e he => ?_
    simp only [bne_iff_ne, ne_eq]
    rintro rfl
    exact h (List.mem_map.mpr ⟨e, he, rfl⟩)
  rw [overlay, hnone]
  rfl

theorem lookup_of_mem (hnodup : (edits.map (·.1)).Nodup) {e : List σ × Option α} (h : e ∈ edits) :
    edits.lookup e.1 = some e.2 := by
  induction edits with
  | nil => cases h
  | cons e' edits ih =>
    rw [List.map_cons, List.nodup_cons] at hnodup
    rcases List.mem_cons.mp h with rfl | h
    · exact List.lookup_cons_self
    · have hne : (e.1 == e'.1) = false := by
        refine beq_eq_false_iff_ne.mpr fun heq => hnodup.1 ?_
        rw [← heq]
        exact List.mem_map.mpr ⟨e, h, rfl⟩
      rw [List.lookup_cons, hne]
      exact ih hnodup.2 h

theorem overlay_of_mem (hnodup : (edits.map (·.1)).Nodup) {e : List σ × Option α} (h : e ∈ edits) :
    overlay view edits e.1 = e.2 := by
  rw [overlay, lookup_of_mem hnodup h]
  rfl

/-- The order of the edits does not matter. -/
theorem overlay_perm (hnodup : (edits.map (·.1)).Nodup) (h : edits.Perm edits') :
    overlay view edits' = overlay view edits := by
  funext q
  by_cases hq : q ∈ edits.map (·.1)
  · obtain ⟨e, he, rfl⟩ := List.mem_map.mp hq
    rw [overlay_of_mem hnodup he,
      overlay_of_mem ((h.map _).nodup_iff.mp hnodup) (h.mem_iff.mp he)]
  · rw [overlay_of_notMem hq, overlay_of_notMem fun hq' => hq ((h.map _).mem_iff.mpr hq')]

/-- One more leaf on a tree that is overlaid already. -/
theorem setLeaf_overlay {e : List σ × Option α} (hs : Separate view (edits ++ [e]))
    (hnodup : ((edits ++ [e]).map (·.1)).Nodup) :
    setLeaf (overlay view edits) e.1 e.2 = overlay view (edits ++ [e]) := by
  have hlast : e ∈ edits ++ [e] := by simp
  funext q
  unfold setLeaf
  split
  · rename_i hq
    rw [hq, overlay_of_mem hnodup hlast]
  rename_i hq
  split
  · rename_i hbelow
    obtain ⟨rest, rfl⟩ := hbelow
    have hrest : rest ≠ [] := by
      rintro rfl
      exact hq (List.append_nil _)
    obtain ⟨hnone, hother⟩ := hs e hlast rest hrest
    rw [overlay_of_notMem, hnone]
    intro hmem
    obtain ⟨e', he', heq⟩ := List.mem_map.mp hmem
    exact hother e' he' heq
  · by_cases hmem : q ∈ edits.map (·.1)
    · obtain ⟨e', he', rfl⟩ := List.mem_map.mp hmem
      have hleft : (edits.map (·.1)).Nodup := by
        rw [List.map_append] at hnodup
        exact (List.nodup_append.mp hnodup).1
      rw [overlay_of_mem hleft he', overlay_of_mem hnodup (List.mem_append_left _ he')]
    · rw [overlay_of_notMem hmem, overlay_of_notMem]
      rw [List.map_append, List.mem_append, not_or]
      exact ⟨hmem, by simpa using hq⟩

/-- An overlaid tree with nothing below its new leaves has been overlaid on separate paths. -/
theorem separate_of_overlay (hnodup : (edits.map (·.1)).Nodup)
    (hleaf : ∀ e ∈ edits, e.2 ≠ none)
    (h : ∀ e ∈ edits, ∀ q ≠ [], overlay view edits (e.1 ++ q) = none) : Separate view edits := by
  intro e he q hq
  have hnone := h e he q hq
  have hother : ∀ e' ∈ edits, e'.1 ≠ e.1 ++ q := by
    intro e' he' heq
    rw [← heq, overlay_of_mem hnodup he'] at hnone
    exact hleaf e' he' hnone
  refine ⟨?_, hother⟩
  rw [overlay_of_notMem] at hnone
  · exact hnone
  · intro hmem
    obtain ⟨e', he', heq⟩ := List.mem_map.mp hmem
    exact hother e' he' heq

end

end RcdServer.Lib.Leaves
