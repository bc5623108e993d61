import Mathlib.Data.List.Nodup
import Mathlib.Data.List.Count
import Mathlib.Data.List.Perm.Subperm
import Mathlib.Data.Set.Finite.Lattice
import Mathlib.Logic.Function.Basic
import Mathlib.Logic.Relation
import Mathlib.Tactic.Tauto

/-!
# Kahn's algorithm

Nodes are the numbers below `n`, and `deps i` are the nodes that `i` waits for. Nodes
without a pending dependency stand in a FIFO queue; a node leaving the queue is placed and
lowers the count of every node that waits for it. The nodes that are never placed are those from
which a cycle can be reached.
-/
namespace RcdServer.Lib.Kahn

structure State where
  inDegree : Nat → Nat
  queue : List Nat
  order : List Nat

variable (n : Nat) (deps : Nat → List Nat)

/-- The nodes that wait for `d`, once for each time they list it. -/
def adjacency (d : Nat) : List Nat :=
  (List.range n).flatMap fun i => List.replicate ((deps i).count d) i

def start : State where
  inDegree := fun i => (deps i).length
  queue := (List.range n).filter fun i => (deps i).length == 0
  order := []

def relax (s : State) (next : Nat) : State :=
  let degree := s.inDegree next - 1
  { s with
    inDegree := Function.update s.inDegree next degree
    queue := if degree = 0 then s.queue ++ [next] else s.queue }

def visit (s : State) (index : Nat) (rest : List Nat) : State :=
  (adjacency n deps index).foldl relax { s with queue := rest, order := s.order ++ [index] }

/-- The loop, bounded: `queue_sort` shows that `n` rounds empty the queue. -/
def loop : Nat → State → State
  | 0, s => s
  | fuel + 1, s =>
    match s.queue with
    | [] => s
    | index :: rest => loop fuel (visit n deps s index rest)

def sort : State := loop n deps n (start n deps)

/-- Every node stands after the nodes it waits for. -/
def Sorted : List Nat → Prop
  | order => ∀ l i r, order = l ++ i :: r → ∀ d ∈ deps i, d ∈ l

structure Inv (s : State) : Prop where
  nodup : (s.order ++ s.queue).Nodup
  bound : ∀ i ∈ s.order ++ s.queue, i < n
  degree : ∀ i < n, s.inDegree i = (deps i).countP fun d => decide (d ∉ s.order)
  ready : ∀ i < n, s.inDegree i = 0 ↔ i ∈ s.order ++ s.queue
  sorted : Sorted deps s.order

/-- Dependencies are nodes, and none is listed twice. -/
structure WellFormed : Prop where
  nodup : ∀ i, (deps i).Nodup
  bound : ∀ i, ∀ d ∈ deps i, d < n

variable {n deps}

theorem adjacency_eq (hwf : WellFormed n deps) (d : Nat) :
    adjacency n deps d = (List.range n).filter fun i => decide (d ∈ deps i) := by
  have hflat : ∀ l : List Nat, (l.flatMap fun i => List.replicate ((deps i).count d) i) =
      l.filter fun i => decide (d ∈ deps i) := by
    intro l
    induction l with
    | nil => rfl
    | cons i l ih =>
      by_cases hd : d ∈ deps i
      · simp [ih, hd, List.count_eq_one_of_mem (hwf.nodup i) hd]
      · simp [ih, hd, List.count_eq_zero_of_not_mem hd]
  exact hflat _

/-- Relaxing distinct nodes lowers the count of each by one and queues those that reach zero. -/
theorem foldl_relax (l : List Nat) (hl : l.Nodup) (s : State) :
    l.foldl relax s =
      { s with
        inDegree := fun i => if i ∈ l then s.inDegree i - 1 else s.inDegree i
        queue := s.queue ++ l.filter fun i => s.inDegree i - 1 == 0 } := by
  induction l generalizing s with
  | nil => simp
  | cons a l ih =>
    obtain ⟨ha, hl⟩ := List.nodup_cons.mp hl
    rw [List.foldl_cons, ih hl]
    have hsame : ∀ i ∈ l, (relax s a).inDegree i = s.inDegree i := by
      intro i hi
      have hia : i ≠ a := fun h => ha (h ▸ hi)
      simp [relax, Function.update_of_ne hia]
    have hfilter : l.filter (fun i => (relax s a).inDegree i - 1 == 0) =
        l.filter (fun i => s.inDegree i - 1 == 0) := by
      apply List.filter_congr
      intro i hi
      rw [hsame i hi]
    have hdegree : (fun i => if i ∈ l then (relax s a).inDegree i - 1 else (relax s a).inDegree i) =
        fun i => if i ∈ a :: l then s.inDegree i - 1 else s.inDegree i := by
      funext i
      by_cases hi : i ∈ l
      · simp [hi, hsame i hi]
      · by_cases hia : i = a
        · subst hia
          simp [hi, relax]
        · simp [hi, hia, relax]
    rw [hdegree, hfilter]
    by_cases hzero : s.inDegree a - 1 = 0 <;> simp [relax, hzero]

theorem visit_eq (hwf : WellFormed n deps) (s : State) (index : Nat) (rest : List Nat) :
    visit n deps s index rest =
      { inDegree := fun i => if i < n ∧ index ∈ deps i then s.inDegree i - 1 else s.inDegree i
        queue := rest ++ (List.range n).filter fun i =>
          decide (index ∈ deps i) && s.inDegree i - 1 == 0
        order := s.order ++ [index] } := by
  have hnodup : ((List.range n).filter fun i => decide (index ∈ deps i)).Nodup :=
    List.nodup_range.filter _
  rw [visit, adjacency_eq hwf, foldl_relax _ hnodup]
  simp only [List.mem_filter, List.mem_range, decide_eq_true_eq, List.filter_filter]
  congr 2
  apply List.filter_congr
  intro i _
  rw [Bool.and_comm]

/-- Placing a node lowers the number of pending dependencies of those that wait for it. -/
theorem countP_pending {l order : List Nat} (hl : l.Nodup) {index : Nat} (hi : index ∉ order) :
    l.countP (fun d => decide (d ∉ order ++ [index])) =
      if index ∈ l then (l.countP fun d => decide (d ∉ order)) - 1
      else l.countP fun d => decide (d ∉ order) := by
  induction l with
  | nil => simp
  | cons d l ih =>
    obtain ⟨hd, hl⟩ := List.nodup_cons.mp hl
    have ih := ih hl
    rw [List.countP_cons, List.countP_cons, ih]
    by_cases hdi : d = index
    · subst hdi
      simp [hd, hi]
    · have hkeep : decide (d ∉ order ++ [index]) = decide (d ∉ order) := by simp [hdi]
      have hpos : index ∈ l → 0 < l.countP fun d => decide (d ∉ order) := by
        intro hmem
        exact List.countP_pos_iff.mpr ⟨index, hmem, by simpa using hi⟩
      rw [hkeep]
      by_cases hin : index ∈ l
      · have := hpos hin
        rw [if_pos hin, if_pos (List.mem_cons_of_mem d hin)]
        omega
      · have hnot : index ∉ d :: l := by simp [Ne.symm hdi, hin]
        rw [if_neg hin, if_neg hnot]

theorem inv_start (n : Nat) (deps : Nat → List Nat) : Inv n deps (start n deps) where
  nodup := by simpa [start] using List.nodup_range.filter _
  bound := by
    intro i hi
    simp only [start, List.nil_append, List.mem_filter, List.mem_range] at hi
    exact hi.1
  degree := by simp [start]
  ready := by
    intro i hi
    simp [start, hi]
  sorted := by
    intro l i r h
    simp [start] at h

theorem sorted_snoc {order : List Nat} {index : Nat} (h : Sorted deps order)
    (hi : ∀ d ∈ deps index, d ∈ order) : Sorted deps (order ++ [index]) := by
  intro l i r heq d hd
  rcases List.eq_nil_or_concat r with rfl | ⟨r', b, rfl⟩
  · obtain ⟨rfl, hii⟩ := List.append_inj' heq rfl
    obtain rfl : index = i := by simpa using hii
    exact hi d hd
  · have heq' : order ++ [index] = (l ++ i :: r') ++ [b] := by simpa using heq
    obtain ⟨rfl, -⟩ := List.append_inj' heq' rfl
    exact h l i r' rfl d hd

/-- In a sorted order without repetitions nothing waits for itself or for a later node. -/
theorem Sorted.pairwise {order : List Nat} (h : Sorted deps order) (hnodup : order.Nodup) :
    order.Pairwise (fun i j => i ≠ j ∧ j ∉ deps i) ∧ ∀ i ∈ order, i ∉ deps i := by
  have hafter : ∀ l i r, order = l ++ i :: r → ∀ j ∈ i :: r, j ∉ deps i := by
    intro l i r heq j hj hdep
    have hl := h l i r heq j hdep
    rw [heq] at hnodup
    exact (List.nodup_append.mp hnodup).2.2 j hl j hj rfl
  constructor
  · rw [List.pairwise_iff_getElem]
    intro p q hp hq hpq
    refine ⟨fun heq => ?_, ?_⟩
    · exact absurd (hnodup.getElem_inj_iff.mp heq) (by omega)
    · have hsplit : order = order.take p ++ order[p] :: order.drop (p + 1) := by
        rw [← List.drop_eq_getElem_cons hp, List.take_append_drop]
      apply hafter _ _ _ hsplit
      apply List.mem_cons_of_mem
      rw [List.mem_iff_getElem]
      exact ⟨q - (p + 1), by simp; omega, by rw [List.getElem_drop]; congr 1; omega⟩
  · intro i hi
    obtain ⟨l, r, heq⟩ := List.append_of_mem hi
    exact hafter l i r heq i List.mem_cons_self

theorem inv_visit (hwf : WellFormed n deps) {s : State} {index : Nat} {rest : List Nat}
    (h : Inv n deps s) (hq : s.queue = index :: rest) : Inv n deps (visit n deps s index rest) := by
  have hnodup := h.nodup
  rw [hq] at hnodup
  have hmem : index ∈ s.order ++ s.queue := by simp [hq]
  have hlt : index < n := h.bound index hmem
  have hfresh : index ∉ s.order := by
    have := (List.nodup_append.mp hnodup).2.2
    intro hin
    exact this index hin index List.mem_cons_self rfl
  have hdone : ∀ d ∈ deps index, d ∈ s.order := by
    have hzero : s.inDegree index = 0 := (h.ready index hlt).mpr hmem
    rw [h.degree index hlt] at hzero
    intro d hd
    simpa using List.countP_eq_zero.mp hzero d hd
  -- A node that waits for `index` still counts it, so it has not been queued before.
  have hwait : ∀ i < n, index ∈ deps i → 0 < s.inDegree i := by
    intro i hi hdep
    rw [h.degree i hi]
    exact List.countP_pos_iff.mpr ⟨index, hdep, by simpa using hfresh⟩
  rw [visit_eq hwf]
  refine ⟨?_, ?_, ?_, ?_, ?_⟩
  · show ((s.order ++ [index]) ++ (rest ++ _)).Nodup
    rw [List.append_assoc, List.singleton_append, ← List.cons_append, ← List.append_assoc,
      List.nodup_append]
    refine ⟨hnodup, List.nodup_range.filter _, ?_⟩
    intro a ha b hb hab
    subst hab
    simp only [List.mem_filter, List.mem_range, Bool.and_eq_true, decide_eq_true_eq] at hb
    have hpos := hwait a hb.1 hb.2.1
    have := (h.ready a hb.1).mpr (hq ▸ ha)
    omega
  · intro i hi
    simp only [List.mem_append, List.mem_filter, List.mem_range] at hi
    rcases hi with (hi | hi) | hi | hi
    · exact h.bound i (by simp [hi])
    · obtain rfl : i = index := by simpa using hi
      exact hlt
    · exact h.bound i (by simp [hq, hi])
    · exact hi.1
  · intro i hi
    simp only [hi, true_and]
    rw [countP_pending (hwf.nodup i) hfresh, h.degree i hi]
  · intro i hi
    have hready := h.ready i hi
    have hmemi : i ∈ s.order ++ s.queue ↔ i ∈ s.order ∨ i = index ∨ i ∈ rest := by simp [hq]
    simp only [hi, true_and, List.mem_append, List.mem_filter, List.mem_range, List.mem_singleton,
      Bool.and_eq_true, decide_eq_true_eq, beq_iff_eq]
    by_cases hdep : index ∈ deps i
    · have hpos := hwait i hi hdep
      have hnot : ¬ (i ∈ s.order ∨ i = index ∨ i ∈ rest) := by
        rw [← hmemi, ← hready]
        omega
      simp only [hdep, if_true, true_and]
      tauto
    · simp only [hdep, if_false, false_and, or_false]
      rw [hready, hmemi]
      tauto
  · exact sorted_snoc h.sorted hdone

theorem order_visit (hwf : WellFormed n deps) (s : State) (index : Nat) (rest : List Nat) :
    (visit n deps s index rest).order = s.order ++ [index] := by
  rw [visit_eq hwf]

theorem inv_loop (hwf : WellFormed n deps) (fuel : Nat) {s : State} (h : Inv n deps s) :
    Inv n deps (loop n deps fuel s) := by
  induction fuel generalizing s with
  | zero => exact h
  | succ fuel ih =>
    cases hq : s.queue with
    | nil => simpa [loop, hq] using h
    | cons index rest => simpa [loop, hq] using ih (inv_visit hwf h hq)

theorem Inv.length_le {s : State} (h : Inv n deps s) :
    s.order.length + s.queue.length ≤ n := by
  have hsub : (s.order ++ s.queue) ⊆ List.range n := fun i hi => List.mem_range.mpr (h.bound i hi)
  simpa using (h.nodup.subperm hsub).length_le

/-- As many rounds as nodes are left to place empty the queue. -/
theorem queue_loop (hwf : WellFormed n deps) (fuel : Nat) {s : State} (h : Inv n deps s)
    (hfuel : n ≤ s.order.length + fuel) : (loop n deps fuel s).queue = [] := by
  induction fuel generalizing s with
  | zero =>
    have hle := h.length_le
    exact List.eq_nil_of_length_eq_zero (by simpa [loop] using (by omega : s.queue.length = 0))
  | succ fuel ih =>
    cases hq : s.queue with
    | nil => simp [loop, hq]
    | cons index rest =>
      simp only [loop, hq]
      apply ih (inv_visit hwf h hq)
      rw [order_visit hwf]
      simp only [List.length_append, List.length_singleton]
      omega

theorem inv_sort (hwf : WellFormed n deps) : Inv n deps (sort n deps) :=
  inv_loop hwf n (inv_start n deps)

theorem queue_sort (hwf : WellFormed n deps) : (sort n deps).queue = [] :=
  queue_loop hwf n (inv_start n deps) (by simp [start])

/-- An order of full length lists every node once. -/
theorem perm_sort (hwf : WellFormed n deps) (hfull : (sort n deps).order.length = n) :
    (sort n deps).order.Perm (List.range n) := by
  have hinv := inv_sort hwf
  have hnodup : (sort n deps).order.Nodup := (List.nodup_append.mp hinv.nodup).1
  have hsub : (sort n deps).order ⊆ List.range n := by
    intro i hi
    exact List.mem_range.mpr (hinv.bound i (List.mem_append_left _ hi))
  exact (hnodup.subperm hsub).perm_of_length_le (by simp [hfull])

/-! ## Cycles -/

section Cycles

open Relation

variable {α : Type*} {r : α → α → Prop}

def ReachesCycle (r : α → α → Prop) (a : α) : Prop :=
  ∃ b, ReflTransGen r a b ∧ TransGen r b b

/-- Where every element of a finite set has a successor in the set, the walk repeats itself. -/
theorem reachesCycle_of_endless {s : Set α} (hs : s.Finite) (hnext : ∀ a ∈ s, ∃ b ∈ s, r a b)
    {a : α} (ha : a ∈ s) : ReachesCycle r a := by
  choose! next hmem hstep using hnext
  let walk : Nat → α := fun k => next^[k] a
  have hwalk : ∀ k, walk k ∈ s := by
    intro k
    induction k with
    | zero => exact ha
    | succ k ih =>
      show next^[k + 1] a ∈ s
      rw [Function.iterate_succ_apply']
      exact hmem _ ih
  have hone : ∀ k, r (walk k) (walk (k + 1)) := by
    intro k
    show r (next^[k] a) (next^[k + 1] a)
    rw [Function.iterate_succ_apply']
    exact hstep _ (hwalk k)
  have hmany : ∀ k m, ReflTransGen r (walk k) (walk (k + m)) := by
    intro k m
    induction m with
    | zero => exact .refl
    | succ m ih => exact ih.tail (hone (k + m))
  have hrepeats : ¬ Function.Injective walk := fun hinj =>
    Set.infinite_of_injective_forall_mem hinj hwalk hs
  obtain ⟨k, m, heq, hne⟩ : ∃ k m, walk k = walk m ∧ k ≠ m := by
    simpa [Function.Injective] using hrepeats
  have hcycle : ∀ k m, walk k = walk m → k < m → ReachesCycle r a := by
    intro k m heq hlt
    obtain ⟨d, rfl⟩ := Nat.exists_eq_add_of_lt hlt
    have hround : TransGen r (walk k) (walk (k + 1 + d)) := .head' (hone k) (hmany (k + 1) d)
    have hback : walk (k + 1 + d) = walk k := by
      rw [heq]
      congr 1
      omega
    rw [hback] at hround
    have hreach := hmany 0 k
    rw [Nat.zero_add] at hreach
    exact ⟨walk k, hreach, hround⟩
  rcases Nat.lt_or_gt_of_ne hne with hlt | hlt
  · exact hcycle k m heq hlt
  · exact hcycle m k heq.symm hlt

/-- A walk through placed nodes goes back in the order. -/
theorem Sorted.idxOf_lt {order : List Nat} (h : Sorted deps order) (hnodup : order.Nodup) {i d : Nat}
    (hi : i ∈ order) (hd : d ∈ deps i) : d ∈ order ∧ order.idxOf d < order.idxOf i := by
  obtain ⟨l, rest, rfl⟩ := List.append_of_mem hi
  have hdl := h l i rest rfl d hd
  have hil : i ∉ l := by
    intro hmem
    exact (List.nodup_append.mp hnodup).2.2 i hmem i List.mem_cons_self rfl
  refine ⟨List.mem_append_left _ hdl, ?_⟩
  rw [List.idxOf_append_of_mem hdl, List.idxOf_append_of_notMem hil, List.idxOf_cons_self]
  exact Nat.lt_of_lt_of_le (List.idxOf_lt_length_iff.mpr hdl) (Nat.le_add_right _ _)

theorem Sorted.walk {order : List Nat} (h : Sorted deps order) (hnodup : order.Nodup) {i j : Nat}
    (hi : i ∈ order) (hwalk : ReflTransGen (fun a b => b ∈ deps a) i j) :
    j ∈ order ∧ order.idxOf j ≤ order.idxOf i := by
  induction hwalk with
  | refl => exact ⟨hi, le_refl _⟩
  | tail _ hstep ih =>
    obtain ⟨hmem, hlt⟩ := h.idxOf_lt hnodup ih.1 hstep
    exact ⟨hmem, le_trans (Nat.le_of_lt hlt) ih.2⟩

/-- The placed nodes are those from which no cycle can be reached. -/
theorem mem_order_iff (hwf : WellFormed n deps) {i : Nat} (hi : i < n) :
    i ∈ (sort n deps).order ↔ ¬ ReachesCycle (fun a b => b ∈ deps a) i := by
  have hinv := inv_sort hwf
  have hempty := queue_sort hwf
  have hnodup : (sort n deps).order.Nodup := (List.nodup_append.mp hinv.nodup).1
  constructor
  · rintro hplaced ⟨j, hreach, hcycle⟩
    obtain ⟨k, hjk, hkj⟩ := TransGen.head'_iff.mp hcycle
    obtain ⟨hj, -⟩ := hinv.sorted.walk hnodup hplaced hreach
    obtain ⟨hk, hlt⟩ := hinv.sorted.idxOf_lt hnodup hj hjk
    exact absurd (hinv.sorted.walk hnodup hk hkj).2 (Nat.not_le.mpr hlt)
  · intro hacyclic
    by_contra hdropped
    refine hacyclic (reachesCycle_of_endless (s := {i | i < n ∧ i ∉ (sort n deps).order}) ?_ ?_
      ⟨hi, hdropped⟩)
    · exact (Set.finite_lt_nat n).subset fun i hi => hi.1
    · -- A dropped node still waits for one that was not placed either.
      rintro j ⟨hj, hnot⟩
      have hpending : (sort n deps).inDegree j ≠ 0 := by
        rw [ne_eq, hinv.ready j hj, hempty, List.append_nil]
        exact hnot
      rw [hinv.degree j hj, ← Nat.pos_iff_ne_zero, List.countP_pos_iff] at hpending
      obtain ⟨d, hd, hwaits⟩ := hpending
      exact ⟨d, ⟨hwf.bound j d hd, by simpa using hwaits⟩, hd⟩

end Cycles

end RcdServer.Lib.Kahn
