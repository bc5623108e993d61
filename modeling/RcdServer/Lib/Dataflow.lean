import Mathlib.Data.List.Basic
import Mathlib.Data.List.Nodup
import Mathlib.Logic.Function.Basic

/-!
# Networks of computed cells

A cell reads some names, computes a result from them and publishes a value under
its own name. Cells stand in an order in which none reads itself or a later one.
An environment is settled when every published value is the one its cell computes
from that environment; there is only one such environment for given base values.
Refreshing only the cells that a change reaches keeps an environment settled.
-/
namespace RcdServer.Lib.Dataflow

variable {K V R : Type*}

/-- A computed cell, together with the fact that it looks at nothing but what it reads. -/
structure Cell (K V R : Type*) where
  output : K
  reads : List K
  result : (K → Option V) → R
  publish : R → V
  reads_only : ∀ e e', (∀ k ∈ reads, e k = e' k) → result e = result e'

/-- No cell reads its own output or the output of a later cell, and outputs differ. -/
structure Ordered (cells : List (Cell K V R)) : Prop where
  later : cells.Pairwise fun a b => b.output ∉ a.reads ∧ b.output ≠ a.output
  own : ∀ c ∈ cells, c.output ∉ c.reads

theorem Ordered.tail {c : Cell K V R} {cells : List (Cell K V R)} (h : Ordered (c :: cells)) :
    Ordered cells :=
  ⟨(List.pairwise_cons.mp h.later).2, fun a ha => h.own a (List.mem_cons_of_mem c ha)⟩

theorem Ordered.nodup {α : Type*} {f : α → Cell K V R} {l : List α} (h : Ordered (l.map f)) :
    (l.map fun x => (f x).output).Nodup := by
  have hpair := List.pairwise_map.mp h.later
  exact List.pairwise_map.mpr (hpair.imp fun hab => hab.2.symm)

/-- Every cell has published what it computes here, and the other names hold their base value. -/
structure Settled (cells : List (Cell K V R)) (base e : K → Option V) : Prop where
  published : ∀ c ∈ cells, e c.output = some (c.publish (c.result e))
  untouched : ∀ k, k ∉ cells.map (·.output) → e k = base k

/-- Two environments that agree outside the outputs of an ordered list of cells, and in
both of which these cells have published, are the same. -/
theorem agree_of_published {cells : List (Cell K V R)} (hord : Ordered cells)
    {e e' : K → Option V}
    (h : ∀ c ∈ cells, e c.output = some (c.publish (c.result e)))
    (h' : ∀ c ∈ cells, e' c.output = some (c.publish (c.result e')))
    (hout : ∀ k, k ∉ cells.map (·.output) → e k = e' k) : e = e' := by
  -- Induction on the cells still to be compared; the first of them reads only names already compared.
  induction cells with
  | nil =>
    funext k
    exact hout k (by simp)
  | cons c cells ih =>
    obtain ⟨hlater, -⟩ := List.pairwise_cons.mp hord.later
    have hreads : ∀ k ∈ c.reads, e k = e' k := by
      intro k hk
      apply hout
      intro hmem
      rcases List.mem_cons.mp hmem with rfl | hmem
      · exact hord.own c List.mem_cons_self hk
      · obtain ⟨b, hb, rfl⟩ := List.mem_map.mp hmem
        exact (hlater b hb).1 hk
    have hc : e c.output = e' c.output := by
      rw [h c List.mem_cons_self, h' c List.mem_cons_self, c.reads_only e e' hreads]
    refine ih hord.tail (fun a ha => h a (List.mem_cons_of_mem c ha))
      (fun a ha => h' a (List.mem_cons_of_mem c ha)) ?_
    intro k hk
    by_cases hkc : k = c.output
    · rw [hkc, hc]
    · exact hout k (by simpa [hkc] using hk)

theorem Settled.unique {cells : List (Cell K V R)} (hord : Ordered cells)
    {base e e' : K → Option V} (h : Settled cells base e) (h' : Settled cells base e') : e = e' :=
  agree_of_published hord h.published h'.published
    fun k hk => (h.untouched k hk).trans (h'.untouched k hk).symm

variable [DecidableEq K]

/-- One pass over the cells in their order. A flagged cell computes anew and publishes;
any other keeps its old result. -/
def refresh : List (Cell K V R × Bool × R) → (K → Option V) → (K → Option V) × List R
  | [], e => (e, [])
  | (c, true, _) :: rest, e =>
    let r := c.result e
    let out := refresh rest (Function.update e c.output (some (c.publish r)))
    (out.1, r :: out.2)
  | (_, false, old) :: rest, e =>
    let out := refresh rest e
    (out.1, old :: out.2)

theorem refresh_of_not_mem (l : List (Cell K V R × Bool × R)) (e : K → Option V) {k : K}
    (hk : ∀ x ∈ l, x.2.1 = true → x.1.output ≠ k) : (refresh l e).1 k = e k := by
  induction l generalizing e with
  | nil => rfl
  | cons x rest ih =>
    obtain ⟨c, flag, old⟩ := x
    have hrest : ∀ x ∈ rest, x.2.1 = true → x.1.output ≠ k :=
      fun x hx => hk x (List.mem_cons_of_mem _ hx)
    cases flag with
    | false => exact ih e hrest
    | true =>
      have hne : k ≠ c.output := (hk (c, true, old) List.mem_cons_self rfl).symm
      simp only [refresh]
      rw [ih _ hrest, Function.update_of_ne hne]

/-- After the pass every flagged cell has published what it computes from the outcome,
and the results are those computed from the outcome or the old ones. -/
theorem refresh_spec (l : List (Cell K V R × Bool × R)) (hord : Ordered (l.map (·.1)))
    (e : K → Option V) :
    (∀ x ∈ l, x.2.1 = true →
      (refresh l e).1 x.1.output = some (x.1.publish (x.1.result (refresh l e).1))) ∧
    (refresh l e).2 =
      l.map fun x => if x.2.1 then x.1.result (refresh l e).1 else x.2.2 := by
  induction l generalizing e with
  | nil => simp [refresh]
  | cons x rest ih =>
    obtain ⟨c, flag, old⟩ := x
    cases flag with
    | false =>
      obtain ⟨hpub, hres⟩ := ih hord.tail e
      constructor
      · intro y hy hflag
        rcases List.mem_cons.mp hy with rfl | hy
        · cases hflag
        · exact hpub y hy hflag
      · simp only [refresh, List.map_cons]
        rw [hres]
        rfl
    | true =>
      have hlater : ∀ y ∈ rest, y.1.output ∉ c.reads ∧ y.1.output ≠ c.output := by
        intro y hy
        exact (List.pairwise_cons.mp hord.later).1 y.1 (List.mem_map_of_mem hy)
      have hown : c.output ∉ c.reads := hord.own c (by simp)
      simp only [refresh]
      generalize hmid : Function.update e c.output (some (c.publish (c.result e))) = mid
      obtain ⟨hpub, hres⟩ := ih hord.tail mid
      -- Nothing the first cell reads changes in the rest of the pass, nor does its own output.
      have hkeep : (refresh rest mid).1 c.output = mid c.output :=
        refresh_of_not_mem rest mid fun y hy _ => (hlater y hy).2
      have hsame : c.result e = c.result (refresh rest mid).1 := by
        apply c.reads_only
        intro k hk
        have hkc : k ≠ c.output := fun h => hown (h ▸ hk)
        have hk' : (refresh rest mid).1 k = mid k :=
          refresh_of_not_mem rest mid fun y hy _ h => (hlater y hy).1 (h ▸ hk)
        rw [hk', ← hmid, Function.update_of_ne hkc]
      constructor
      · intro y hy hflag
        rcases List.mem_cons.mp hy with rfl | hy
        · show (refresh rest mid).1 c.output = _
          rw [hkeep, ← hsame, ← hmid, Function.update_self]
        · exact hpub y hy hflag
      · rw [hres, List.map_cons, hsame]
        rfl

/-- Refreshing every cell settles any environment. -/
theorem refresh_all (l : List (Cell K V R × Bool × R)) (hord : Ordered (l.map (·.1)))
    (hall : ∀ x ∈ l, x.2.1 = true) (base : K → Option V) :
    Settled (l.map (·.1)) base (refresh l base).1 ∧
      (refresh l base).2 = (l.map (·.1)).map fun c => c.result (refresh l base).1 := by
  obtain ⟨hpub, hres⟩ := refresh_spec l hord base
  refine ⟨⟨?_, ?_⟩, ?_⟩
  · intro c hc
    obtain ⟨x, hx, rfl⟩ := List.mem_map.mp hc
    exact hpub x hx (hall x hx)
  · intro k hk
    apply refresh_of_not_mem
    intro x hx _ h
    exact hk (h ▸ List.mem_map_of_mem (List.mem_map_of_mem hx))
  · rw [hres, List.map_map]
    apply List.map_congr_left
    intro x hx
    simp [hall x hx]

/-- A settled environment whose base values change settles again when the flagged cells are
refreshed, provided a cell left alone reads no changed name and no flagged output. -/
theorem refresh_settled (l : List (Cell K V R × Bool × R)) (hord : Ordered (l.map (·.1)))
    (base base' e e' : K → Option V) (h : Settled (l.map (·.1)) base e)
    (hold : ∀ x ∈ l, x.2.2 = x.1.result e)
    (hbase : ∀ k, k ∉ (l.map (·.1)).map (·.output) → e' k = base' k)
    (hout : ∀ x ∈ l, e' x.1.output = e x.1.output)
    (hclosed : ∀ x ∈ l, x.2.1 = false → ∀ k ∈ x.1.reads,
      e' k = e k ∧ ∀ y ∈ l, y.2.1 = true → y.1.output ≠ k) :
    Settled (l.map (·.1)) base' (refresh l e').1 ∧
      (refresh l e').2 = (l.map (·.1)).map fun c => c.result (refresh l e').1 := by
  obtain ⟨hpub, hres⟩ := refresh_spec l hord e'
  -- A cell left alone would compute the same result as before.
  have halone : ∀ x ∈ l, x.2.1 = false → x.1.result e = x.1.result (refresh l e').1 := by
    intro x hx hflag
    apply x.1.reads_only
    intro k hk
    obtain ⟨hsame, hnot⟩ := hclosed x hx hflag k hk
    rw [refresh_of_not_mem l e' hnot, hsame]
  have hfree : ∀ x ∈ l, x.2.1 = false → ∀ y ∈ l, y.2.1 = true → y.1.output ≠ x.1.output := by
    intro x hx hx0 y hy hy1 heq
    have hxy := List.inj_on_of_nodup_map (Ordered.nodup hord) hy hx heq
    rw [hxy, hx0] at hy1
    cases hy1
  refine ⟨⟨?_, ?_⟩, ?_⟩
  · intro c hc
    obtain ⟨x, hx, rfl⟩ := List.mem_map.mp hc
    cases hflag : x.2.1 with
    | true => exact hpub x hx hflag
    | false =>
      calc (refresh l e').1 x.1.output = e' x.1.output :=
            refresh_of_not_mem l e' (hfree x hx hflag)
        _ = e x.1.output := hout x hx
        _ = some (x.1.publish (x.1.result e)) := h.published x.1 hc
        _ = some (x.1.publish (x.1.result (refresh l e').1)) := by rw [halone x hx hflag]
  · intro k hk
    rw [← hbase k hk]
    apply refresh_of_not_mem
    intro x hx _ heq
    exact hk (heq ▸ List.mem_map_of_mem (List.mem_map_of_mem hx))
  · rw [hres, List.map_map]
    apply List.map_congr_left
    intro x hx
    cases hflag : x.2.1 with
    | true => simp
    | false => simpa [hold x hx] using halone x hx hflag

end RcdServer.Lib.Dataflow
