import Mathlib.Data.List.AList

/-!
# Finite maps

Association lists with one value type: the values that meet a condition are counted, all values
are rewritten, keys are dropped, and missing keys are filled in.
-/
namespace RcdServer.Lib

universe u v w

abbrev Map (κ : Type u) (α : Type v) := AList fun _ : κ => α

namespace Map

variable {κ : Type u} {α : Type v} {β : Type w} [DecidableEq κ]

/-! ## Counting -/

/-- How many values meet `p`. -/
def count (p : α → Bool) (m : Map κ α) : Nat := m.entries.countP fun e => p e.2

theorem count_insert_new {p : α → Bool} {m : Map κ α} {k : κ} {a : α} (h : m.lookup k = none) :
    count p (m.insert k a) = count p m + if p a then 1 else 0 := by
  rw [count, AList.entries_insert_of_notMem (AList.lookup_eq_none.mp h), List.countP_cons, count]

theorem count_erase {p : α → Bool} {m : Map κ α} {k : κ} {a : α} (h : m.lookup k = some a) :
    count p (m.erase k) + (if p a then 1 else 0) = count p m := by
  obtain ⟨entries, hnodup⟩ := m
  have hmem : (⟨k, a⟩ : Sigma fun _ : κ => α) ∈ entries :=
    (List.mem_dlookup_iff hnodup).mp h
  have hkey : k ∈ entries.keys := List.mem_keys_of_mem hmem
  obtain ⟨b, l₁, l₂, hfirst, hsplit, herase⟩ := List.exists_of_kerase hkey
  have hb : b = a := by
    have hb : (⟨k, b⟩ : Sigma fun _ : κ => α) ∈ entries := hsplit ▸ by simp
    exact hnodup.eq_of_mk_mem hb hmem
  subst hb
  show (entries.kerase k).countP _ + _ = entries.countP _
  rw [herase, hsplit]
  simp only [List.countP_append, List.countP_cons]
  omega

theorem count_pos_iff {p : α → Bool} {m : Map κ α} :
    0 < count p m ↔ ∃ k a, m.lookup k = some a ∧ p a = true := by
  rw [count, List.countP_pos_iff]
  constructor
  · intro ⟨⟨k, a⟩, hmem, hp⟩
    exact ⟨k, a, AList.mem_lookup_iff.mpr hmem, hp⟩
  · intro ⟨k, a, hk, hp⟩
    exact ⟨⟨k, a⟩, AList.mem_lookup_iff.mp hk, hp⟩

theorem mem_entries {m : Map κ α} {k : κ} {a : α} :
    (⟨k, a⟩ : Sigma fun _ : κ => α) ∈ m.entries ↔ m.lookup k = some a :=
  AList.mem_lookup_iff.symm

theorem mem_iff {m : Map κ α} {k : κ} : k ∈ m ↔ ∃ a, m.lookup k = some a := by
  rw [← AList.lookup_isSome, Option.isSome_iff_exists]

theorem lookup_insert_eq {m : Map κ α} {k k' : κ} {a : α} :
    (m.insert k a).lookup k' = if k' = k then some a else m.lookup k' := by
  split
  · subst k'
    exact AList.lookup_insert m
  · exact AList.lookup_insert_ne ‹_›

theorem lookup_erase_eq {m : Map κ α} {k k' : κ} :
    (m.erase k).lookup k' = if k' = k then none else m.lookup k' := by
  split
  · subst k'
    exact AList.lookup_erase k m
  · exact AList.lookup_erase_ne ‹_›

/-! ## Inserting a list -/

/-- Insert the value of every element under its key. -/
def inserts {γ : Type*} (key : γ → κ) (value : γ → α) (m : Map κ α) (l : List γ) : Map κ α :=
  l.foldl (fun m c => m.insert (key c) (value c)) m

section

variable {γ : Type*} {key : γ → κ} {value : γ → α}

theorem lookup_inserts_other {m : Map κ α} {l : List γ} {k : κ} (h : k ∉ l.map key) :
    (inserts key value m l).lookup k = m.lookup k := by
  induction l generalizing m with
  | nil => rfl
  | cons c l ih =>
    rw [List.map_cons, List.mem_cons, not_or] at h
    rw [inserts, List.foldl_cons]
    exact (ih h.2).trans (AList.lookup_insert_ne h.1)

theorem lookup_inserts_mem {m : Map κ α} {l : List γ} {c : γ} (h : (l.map key).Nodup)
    (hc : c ∈ l) : (inserts key value m l).lookup (key c) = some (value c) := by
  induction l generalizing m with
  | nil => cases hc
  | cons d l ih =>
    rw [List.map_cons, List.nodup_cons] at h
    rw [inserts, List.foldl_cons]
    rcases List.mem_cons.mp hc with rfl | hc
    · exact (lookup_inserts_other h.1).trans (AList.lookup_insert m)
    · exact ih h.2 hc

/-- The keys of a map built from a list of distinct keys. -/
theorem keys_inserts {l : List γ} (h : (l.map key).Nodup) :
    (inserts key value ∅ l).keys.Perm (l.map key) := by
  rw [List.perm_ext_iff_of_nodup (AList.keys_nodup _) h]
  intro k
  rw [← AList.mem_keys, mem_iff]
  constructor
  · rintro ⟨a, ha⟩
    by_contra hno
    rw [lookup_inserts_other hno] at ha
    cases ha
  · intro hk
    obtain ⟨c, hc, rfl⟩ := List.mem_map.mp hk
    exact ⟨value c, lookup_inserts_mem h hc⟩

end

/-! ## Rewriting all values -/

def mapValues (f : κ → α → β) (m : Map κ α) : Map κ β where
  entries := m.entries.map fun e => ⟨e.1, f e.1 e.2⟩
  nodupKeys := by
    have hkeys : (m.entries.map fun e => (⟨e.1, f e.1 e.2⟩ : Sigma fun _ : κ => β)).keys =
        m.entries.keys := by
      simp [List.keys]
    rw [List.NodupKeys, hkeys]
    exact m.nodupKeys

theorem lookup_mapValues {f : κ → α → β} {m : Map κ α} {k : κ} :
    (mapValues f m).lookup k = (m.lookup k).map (f k) := by
  cases h : m.lookup k with
  | none =>
    rw [Option.map_none, AList.lookup_eq_none]
    intro hmem
    obtain ⟨b, hb⟩ := mem_iff.mp hmem
    obtain ⟨e, he, heq⟩ := List.mem_map.mp (mem_entries.mpr hb)
    obtain ⟨rfl, -⟩ := Sigma.mk.inj heq
    have := mem_entries.mp he
    rw [h] at this
    cases this
  | some a =>
    exact mem_entries.mp (List.mem_map.mpr ⟨⟨k, a⟩, mem_entries.mpr h, rfl⟩)

/-! ## Dropping keys -/

def keep (p : κ → Bool) (m : Map κ α) : Map κ α where
  entries := m.entries.filter fun e => p e.1
  nodupKeys := m.nodupKeys.sublist List.filter_sublist

theorem lookup_keep {p : κ → Bool} {m : Map κ α} {k : κ} :
    (keep p m).lookup k = if p k then m.lookup k else none := by
  apply Option.ext
  intro a
  have hkeep : (keep p m).lookup k = some a ↔ m.lookup k = some a ∧ p k = true := by
    rw [← mem_entries, ← mem_entries, keep, List.mem_filter]
  rw [hkeep]
  by_cases hp : p k = true
  · simp [hp]
  · simp [hp]

/-! ## Filling in missing keys -/

/-- Insert `f k a` for every key of the list that has no value yet. -/
def fill (f : κ → α → β) (m : Map κ β) : List (Sigma fun _ : κ => α) → Map κ β
  | [] => m
  | e :: es => fill f (if e.1 ∈ m then m else m.insert e.1 (f e.1 e.2)) es

theorem lookup_fill_some {f : κ → α → β} {m : Map κ β} {es : List (Sigma fun _ : κ => α)} {k : κ}
    {b : β} (h : m.lookup k = some b) : (fill f m es).lookup k = some b := by
  induction es generalizing m with
  | nil => exact h
  | cons e es ih =>
    rw [fill]
    apply ih
    split
    · exact h
    · rename_i hnew
      have hne : k ≠ e.1 := by
        rintro rfl
        exact hnew (mem_iff.mpr ⟨b, h⟩)
      rw [AList.lookup_insert_ne hne, h]

theorem lookup_fill_none {f : κ → α → β} {m : Map κ β} {es : List (Sigma fun _ : κ => α)} {k : κ}
    {b : β} (h : m.lookup k = none) (hb : (fill f m es).lookup k = some b) :
    ∃ a, (⟨k, a⟩ : Sigma fun _ : κ => α) ∈ es ∧ b = f k a := by
  induction es generalizing m with
  | nil =>
    rw [fill, h] at hb
    cases hb
  | cons e es ih =>
    obtain ⟨k', a'⟩ := e
    rw [fill] at hb
    by_cases hk : k' ∈ m
    · rw [if_pos hk] at hb
      obtain ⟨a, ha, rfl⟩ := ih h hb
      exact ⟨a, List.mem_cons_of_mem _ ha, rfl⟩
    · rw [if_neg hk] at hb
      by_cases hkk : k = k'
      · subst hkk
        have hfilled : (fill f (m.insert k (f k a')) es).lookup k = some (f k a') :=
          lookup_fill_some (AList.lookup_insert m)
        rw [hfilled] at hb
        cases hb
        exact ⟨a', List.mem_cons_self, rfl⟩
      · have hnone : (m.insert k' (f k' a')).lookup k = none := by
          rw [AList.lookup_insert_ne hkk, h]
        obtain ⟨a, ha, rfl⟩ := ih hnone hb
        exact ⟨a, List.mem_cons_of_mem _ ha, rfl⟩

end Map

/-! ## Registration

A pass that enters names one after the other and complains about a name that was there already. -/

/-- A step that enters `keys x` and stays quiet exactly if `fine x` holds and all of them are new. -/
structure Registers {σ κ γ : Type*} (has : σ → κ → Prop) (quiet : σ → Prop) (f : σ → γ → σ)
    (fine : γ → Prop) (keys : γ → List κ) : Prop where
  mem : ∀ s x k, has (f s x) k ↔ k ∈ keys x ∨ has s k
  quiet_iff : ∀ s x, quiet (f s x) ↔
    quiet s ∧ fine x ∧ (keys x).Nodup ∧ ∀ k ∈ keys x, ¬ has s k

/-- A pass over a list is a step that enters the names of all its elements. -/
theorem Registers.foldl {σ κ γ : Type*} {has : σ → κ → Prop} {quiet : σ → Prop} {f : σ → γ → σ}
    {fine : γ → Prop} {keys : γ → List κ} (h : Registers has quiet f fine keys) :
    Registers has quiet (fun s (l : List γ) => l.foldl f s) (fun l => ∀ x ∈ l, fine x)
      (fun l => l.flatMap keys) where
  mem := by
    intro s l k
    induction l generalizing s with
    | nil => simp
    | cons x l ih =>
      rw [List.foldl_cons, ih, h.mem, List.flatMap_cons, List.mem_append]
      tauto
  quiet_iff := by
    intro s l
    induction l generalizing s with
    | nil => simp
    | cons x l ih =>
      rw [List.foldl_cons, ih, h.quiet_iff, List.flatMap_cons, List.nodup_append']
      simp only [h.mem, List.mem_append, List.forall_mem_cons, not_or]
      constructor
      · rintro ⟨⟨hs, hx, hnodup, hnew⟩, hl, hnodup', hnew'⟩
        refine ⟨hs, ⟨hx, hl⟩, ⟨hnodup, hnodup', fun k hk hk' => (hnew' k hk').1 hk⟩, ?_⟩
        exact fun k hk => hk.elim (hnew k) fun hk => (hnew' k hk).2
      · rintro ⟨hs, ⟨hx, hl⟩, ⟨hnodup, hnodup', hdisjoint⟩, hnew⟩
        exact ⟨⟨hs, hx, hnodup, fun k hk => hnew k (.inl hk)⟩, hl, hnodup',
          fun k hk => ⟨fun hk' => hdisjoint hk' hk, hnew k (.inr hk)⟩⟩

end RcdServer.Lib
