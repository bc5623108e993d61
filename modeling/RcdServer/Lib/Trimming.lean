import Mathlib.Algebra.GroupWithZero.Nat
import Mathlib.Data.List.InsertIdx

/-!
# Trimming a queue

A queue of elements with sizes, some of them of low priority. As long as it is too large, the oldest
element of low priority leaves it, or the oldest one if there is none.
-/
namespace RcdServer.Lib.Trimming

variable {α β : Type*} (size : α → Nat) (low : α → Bool)

def weight (l : List α) : Nat := (l.map size).sum

def dropVictim (l : List α) : List α :=
  match l.findIdx? low with
  | some i => l.eraseIdx i
  | none => l.tail

/-- As many rounds as the first argument says. -/
def trim (limit : Nat) : Nat → List α → List α
  | 0, l => l
  | n + 1, l => if weight size l ≤ limit then l else trim limit n (dropVictim low l)

/-- What a queue is without its first `k` victims. -/
structure Removed (k : Nat) (l kept : List α) : Prop where
  sublist : kept.Sublist l
  lows : kept.filter low = (l.filter low).drop k
  highs : kept.filter (!low ·) = (l.filter (!low ·)).drop (k - (l.filter low).length)

/-- What is left by the least number of removals that is enough. -/
def Leaves (limit : Nat) (l : List α) (k : Nat) (kept : List α) : Prop :=
  Removed low k l kept ∧ weight size kept ≤ limit ∧
    ∀ j < k, ∀ fewer, Removed low j l fewer → limit < weight size fewer

variable {size low} {limit : Nat} {l kept : List α}

theorem weight_cons (a : α) (l : List α) : weight size (a :: l) = size a + weight size l := rfl

/-! ## Victims -/

theorem dropVictim_cons_low {a : α} (h : low a = true) : dropVictim low (a :: l) = l := by
  rw [dropVictim, List.findIdx?_cons, if_pos h]
  rfl

theorem dropVictim_cons_high {a : α} (h : low a = false) (hl : l.filter low ≠ []) :
    dropVictim low (a :: l) = a :: dropVictim low l := by
  rw [dropVictim, dropVictim, List.findIdx?_cons, if_neg (by simp [h])]
  cases hi : l.findIdx? low with
  | some i => rfl
  | none =>
    rw [List.findIdx?_eq_none_iff] at hi
    exact absurd (List.filter_eq_nil_iff.mpr fun a ha => by simp [hi a ha]) hl

theorem dropVictim_of_high (h : l.filter low = []) : dropVictim low l = l.tail := by
  have hi : l.findIdx? low = none := by
    rw [List.findIdx?_eq_none_iff]
    intro a ha
    simpa using List.filter_eq_nil_iff.mp h a ha
  rw [dropVictim, hi]

theorem dropVictim_sublist (l : List α) : (dropVictim low l).Sublist l := by
  unfold dropVictim
  split
  · exact List.eraseIdx_sublist _ _
  · exact List.tail_sublist l

theorem length_dropVictim (low : α → Bool) (l : List α) : (dropVictim low l).length = l.length - 1 := by
  unfold dropVictim
  split
  · rename_i i hi
    obtain ⟨hlt, -⟩ := List.findIdx?_eq_some_iff_getElem.mp hi
    exact List.length_eraseIdx_of_lt hlt
  · exact List.length_tail

theorem filter_low_dropVictim (l : List α) :
    (dropVictim low l).filter low = (l.filter low).tail := by
  induction l with
  | nil => rfl
  | cons a l ih =>
    cases ha : low a with
    | true => rw [dropVictim_cons_low ha, List.filter_cons_of_pos ha, List.tail_cons]
    | false =>
      by_cases hl : l.filter low = []
      · have hnone : (a :: l).filter low = [] := by
          rw [List.filter_cons_of_neg (by simp [ha]), hl]
        rw [dropVictim_of_high hnone, hnone, List.tail_cons, hl, List.tail_nil]
      · rw [dropVictim_cons_high ha hl, List.filter_cons_of_neg (by simp [ha]), ih,
          List.filter_cons_of_neg (by simp [ha])]

/-- The others are not touched while there is an element of low priority. -/
theorem filter_high_dropVictim (l : List α) :
    (dropVictim low l).filter (!low ·) =
      if l.filter low = [] then (l.filter (!low ·)).tail else l.filter (!low ·) := by
  induction l with
  | nil => rfl
  | cons a l ih =>
    cases ha : low a with
    | true =>
      rw [dropVictim_cons_low ha, if_neg (by simp [ha]), List.filter_cons_of_neg (by simp [ha])]
    | false =>
      have hlow : (a :: l).filter low = l.filter low := List.filter_cons_of_neg (by simp [ha])
      have hhigh : (a :: l).filter (!low ·) = a :: l.filter (!low ·) :=
        List.filter_cons_of_pos (by simp [ha])
      rw [hlow, hhigh]
      by_cases hl : l.filter low = []
      · rw [if_pos hl, dropVictim_of_high (hlow.trans hl), List.tail_cons, List.tail_cons]
      · rw [dropVictim_cons_high ha hl, if_neg hl, List.filter_cons_of_pos (by simp [ha]), ih,
          if_neg hl]

/-! ## Removals -/

theorem removed_zero (l : List α) : Removed low 0 l l where
  sublist := List.Sublist.refl l
  lows := rfl
  highs := by rw [Nat.zero_sub, List.drop_zero]

theorem Removed.step {k : Nat} (h : Removed low k l kept) :
    Removed low (k + 1) l (dropVictim low kept) where
  sublist := (dropVictim_sublist kept).trans h.sublist
  lows := by rw [filter_low_dropVictim, h.lows, List.tail_drop]
  highs := by
    rw [filter_high_dropVictim, h.lows, h.highs]
    split_ifs with hk
    · rw [List.drop_eq_nil_iff] at hk
      rw [List.tail_drop, Nat.sub_add_comm hk]
    · rw [List.drop_eq_nil_iff] at hk
      rw [Nat.sub_eq_zero_of_le (by omega), Nat.sub_eq_zero_of_le (by omega)]

/-- Elements of high priority are removed only when there are no others left. -/
theorem Removed.high_first {k : Nat} (h : Removed low k l kept)
    (hhigh : kept.filter (!low ·) ≠ l.filter (!low ·)) : kept.filter low = [] := by
  rw [h.lows, List.drop_eq_nil_iff]
  by_contra hk
  apply hhigh
  rw [h.highs, Nat.sub_eq_zero_of_le (by omega), List.drop_zero]

theorem weight_split (low : α → Bool) (l : List α) :
    weight size l = weight size (l.filter low) + weight size (l.filter (!low ·)) := by
  induction l with
  | nil => rfl
  | cons a l ih =>
    cases ha : low a <;> simp_all [weight] <;> omega

/-- Removals of the same number weigh the same, for every measure. -/
theorem Removed.weight_eq {k : Nat} {kept' : List α} (h : Removed low k l kept)
    (h' : Removed low k l kept') : weight size kept = weight size kept' := by
  rw [weight_split low kept, weight_split low kept', h.lows,
    h.highs, h'.lows, h'.highs]

/-- The least number that is enough is one number. -/
theorem Leaves.unique {k k' : Nat} {kept' : List α} (h : Leaves size low limit l k kept)
    (h' : Leaves size low limit l k' kept') : k = k' := by
  obtain ⟨hremoved, hfits, hleast⟩ := h
  obtain ⟨hremoved', hfits', hleast'⟩ := h'
  rcases Nat.lt_trichotomy k k' with hlt | heq | hlt
  · have := hleast' k hlt kept hremoved
    omega
  · exact heq
  · have := hleast k' hlt kept' hremoved'
    omega

/-! ## The loop -/

theorem trim_of_fits (h : weight size l ≤ limit) (n : Nat) : trim size low limit n l = l := by
  cases n with
  | zero => rfl
  | succ n => rw [trim, if_pos h]

/-- As many rounds as there are elements are enough. -/
theorem leaves_trim (l : List α) :
    ∃ k, Leaves size low limit l k (trim size low limit l.length l) := by
  suffices h : ∀ n j kept, Removed low j l kept → kept.length ≤ n →
      (∀ i < j, ∀ fewer, Removed low i l fewer → limit < weight size fewer) →
      ∃ k, Leaves size low limit l k (trim size low limit n kept) from
    h l.length 0 l (removed_zero l) (Nat.le_refl _) nofun
  intro n
  induction n with
  | zero =>
    intro j kept hremoved hlen hleast
    obtain rfl : kept = [] := List.length_eq_zero_iff.mp (Nat.le_zero.mp hlen)
    exact ⟨j, hremoved, Nat.zero_le _, hleast⟩
  | succ n ih =>
    intro j kept hremoved hlen hleast
    rw [trim]
    split_ifs with hfits
    · exact ⟨j, hremoved, hfits, hleast⟩
    · refine ih (j + 1) _ hremoved.step ?_ ?_
      · have := length_dropVictim low kept
        omega
      · intro i hi fewer hfewer
        rcases Nat.lt_succ_iff_lt_or_eq.mp hi with hi | rfl
        · exact hleast i hi fewer hfewer
        · rw [hfewer.weight_eq hremoved]
          omega

/-! ## The same queue in other words -/

theorem weight_map (f : β → α) (l : List β) : weight size (l.map f) = weight (size ∘ f) l := by
  rw [weight, weight, List.map_map]

theorem dropVictim_map (f : β → α) (l : List β) :
    dropVictim low (l.map f) = (dropVictim (low ∘ f) l).map f := by
  rw [dropVictim, dropVictim, List.findIdx?_map]
  cases l.findIdx? (low ∘ f) with
  | some i => exact List.eraseIdx_map f l i
  | none => exact List.map_tail.symm

theorem trim_map (f : β → α) (n : Nat) (l : List β) :
    trim size low limit n (l.map f) = (trim (size ∘ f) (low ∘ f) limit n l).map f := by
  induction n generalizing l with
  | zero => rfl
  | succ n ih =>
    rw [trim, trim, weight_map]
    split_ifs
    · rfl
    · rw [dropVictim_map, ih]

end RcdServer.Lib.Trimming
