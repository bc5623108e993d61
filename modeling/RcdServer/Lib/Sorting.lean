import Mathlib.Data.List.Sort

/-!
# Stable sorting

What a stable sort does not depend on: elements of one class keep their order, and where the
elements of a list tell apart, so does their order in the input.
-/
namespace RcdServer.Lib.Sorting

universe u

variable {α : Type u} {r : α → α → Prop} [DecidableRel r]

/-- Elements that all tie with each other are listed in the order of the input. -/
theorem filter_insertionSort (p : α → Bool) (l : List α)
    (htie : ∀ a ∈ l, ∀ b ∈ l, p a = true → p b = true → r a b) :
    (l.insertionSort r).filter p = l.filter p := by
  have hpair : (l.filter p).Pairwise r := by
    apply List.pairwise_iff_forall_sublist.mpr
    intro a b hab
    have ha := List.mem_filter.mp (hab.subset (by simp : a ∈ [a, b]))
    have hb := List.mem_filter.mp (hab.subset (by simp : b ∈ [a, b]))
    exact htie a ha.1 b hb.1 ha.2 hb.2
  have hsub : (l.filter p).Sublist (l.insertionSort r) :=
    List.sublist_insertionSort hpair List.filter_sublist
  have hkept := hsub.filter p
  rw [List.filter_filter] at hkept
  simp only [Bool.and_self] at hkept
  have hlength : ((l.insertionSort r).filter p).length = (l.filter p).length :=
    ((List.perm_insertionSort r l).filter p).length_eq
  exact (hkept.eq_of_length hlength.symm).symm

theorem find?_insertionSort (p : α → Bool) (l : List α)
    (htie : ∀ a ∈ l, ∀ b ∈ l, p a = true → p b = true → r a b) :
    (l.insertionSort r).find? p = l.find? p := by
  rw [← List.head?_filter, ← List.head?_filter, filter_insertionSort p l htie]

section

variable [Std.Total r] [IsTrans α r]

/-- Where no two elements tie, the order of the input is lost. -/
theorem insertionSort_eq_of_perm {l m : List α} (h : l.Perm m)
    (hdistinct : ∀ a ∈ l, ∀ b ∈ l, r a b → r b a → a = b) : l.insertionSort r = m.insertionSort r := by
  have hl := List.perm_insertionSort r l
  have hm := List.perm_insertionSort r m
  refine List.Perm.eq_of_pairwise ?_ (List.pairwise_insertionSort r l)
    (List.pairwise_insertionSort r m) (hl.trans (h.trans hm.symm))
  intro a b ha hb hab hba
  exact hdistinct a (hl.subset ha) b (h.symm.subset (hm.subset hb)) hab hba

theorem orderedInsert_comm {a b : α} (h : ¬ (r a b ∧ r b a)) (l : List α) :
    (l.orderedInsert r a).orderedInsert r b = (l.orderedInsert r b).orderedInsert r a := by
  induction l with
  | nil =>
    rcases Std.Total.total (r := r) a b with hab | hba
    · have hba : ¬ r b a := fun hba => h ⟨hab, hba⟩
      simp [hab, hba]
    · have hab : ¬ r a b := fun hab => h ⟨hab, hba⟩
      simp [hab, hba]
  | cons c l ih =>
    by_cases hac : r a c
    · by_cases hbc : r b c
      · rcases Std.Total.total (r := r) a b with hab | hba
        · have hba : ¬ r b a := fun hba => h ⟨hab, hba⟩
          simp [hac, hbc, hab, hba]
        · have hab : ¬ r a b := fun hab => h ⟨hab, hba⟩
          simp [hac, hbc, hab, hba]
      · have hba : ¬ r b a := fun hba => hbc (trans_of r hba hac)
        simp [hac, hbc, hba]
    · by_cases hbc : r b c
      · have hab : ¬ r a b := fun hab => hac (trans_of r hab hbc)
        simp [hac, hbc, hab]
      · simp [hac, hbc, ih]

/-- Only the order of the elements that tie matters: what stands in front of `l` may come in any
order as long as no two of its elements tie. -/
theorem insertionSort_append_eq {k m l : List α} (h : k.Perm m)
    (hdistinct : ∀ a ∈ k, ∀ b ∈ k, a = b ∨ ¬ (r a b ∧ r b a)) :
    (k ++ l).insertionSort r = (m ++ l).insertionSort r := by
  have hfold : ∀ j : List α, (j ++ l).insertionSort r = j.foldr (List.orderedInsert r)
      (l.insertionSort r) := by
    intro j
    simp [List.insertionSort, List.foldr_append]
  rw [hfold, hfold]
  apply h.foldr_eq'
  intro a ha b hb rest
  rcases hdistinct a ha b hb with rfl | hne
  · rfl
  · exact orderedInsert_comm hne rest

end

/-! ## Grouping -/

/-- Listing a list key by key rearranges it. -/
theorem flatMap_filter_perm {β : Type*} [DecidableEq β] (key : α → β) {keys : List β}
    (hnodup : keys.Nodup) (l : List α) (hmem : ∀ a ∈ l, key a ∈ keys) :
    (keys.flatMap fun k => l.filter fun a => key a = k).Perm l := by
  induction keys generalizing l with
  | nil =>
    have hempty : l = [] := List.eq_nil_iff_forall_not_mem.mpr fun a ha => by simpa using hmem a ha
    rw [hempty]
    rfl
  | cons k keys ih =>
    obtain ⟨hk, hnodup⟩ := List.nodup_cons.mp hnodup
    have hrest : ∀ a ∈ l.filter (fun a => !decide (key a = k)), key a ∈ keys := by
      intro a ha
      obtain ⟨ha, hne⟩ := List.mem_filter.mp ha
      exact (List.mem_cons.mp (hmem a ha)).resolve_left (by simpa using hne)
    have hother : (keys.flatMap fun k' => l.filter fun a => key a = k') =
        keys.flatMap fun k' => (l.filter fun a => !decide (key a = k)).filter fun a => key a = k' := by
      refine List.flatMap_congr fun k' hk' => ?_
      rw [List.filter_filter]
      refine List.filter_congr fun a _ => ?_
      by_cases heq : key a = k'
      · have hne : k' ≠ k := fun h => hk (h ▸ hk')
        simp [heq, hne]
      · simp [heq]
    rw [List.flatMap_cons, hother]
    exact ((ih hnodup _ hrest).append_left _).trans (List.filter_append_perm _ l)

end RcdServer.Lib.Sorting
