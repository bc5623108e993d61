import Mathlib.Data.List.Nodup

/-!
# Names of the nodes of a tree

Texts coded piece by piece, and the paths from the root of a tree with a separator between their
segments. Paths differ when their segments do, as long as no segment contains the separator.
-/
namespace RcdServer.Lib.Paths

variable {α β σ : Type*}

/-! ## Codes -/

/-- No code is the start of another one. -/
structure Code (f : α → List β) : Prop where
  nonempty : ∀ a, f a ≠ []
  read : ∀ {a b r s}, f a ++ r = f b ++ s → a = b

theorem Code.flatMap_inj {f : α → List β} (hf : Code f) {l l' : List α}
    (h : l.flatMap f = l'.flatMap f) : l = l' := by
  induction l generalizing l' with
  | nil =>
    cases l' with
    | nil => rfl
    | cons b l' =>
      rw [List.flatMap_nil, List.flatMap_cons] at h
      exact absurd (List.append_eq_nil_iff.mp h.symm).1 (hf.nonempty b)
  | cons a l ih =>
    cases l' with
    | nil =>
      rw [List.flatMap_nil, List.flatMap_cons] at h
      exact absurd (List.append_eq_nil_iff.mp h).1 (hf.nonempty a)
    | cons b l' =>
      rw [List.flatMap_cons, List.flatMap_cons] at h
      obtain rfl := hf.read h
      rw [ih (List.append_cancel_left h)]

/-! ## Paths -/

/-- Segments that can be told apart in a path. -/
def Clean (sep : Char) (path : List String) : Prop := path ≠ [] ∧ ∀ s ∈ path, sep ∉ s.toList

def join (sep : Char) (path : List String) : String := (String.singleton sep).intercalate path

theorem join_inj {sep : Char} {p q : List String} (hp : Clean sep p) (hq : Clean sep q)
    (h : join sep p = join sep q) : p = q := by
  have hsplit : ∀ path, Clean sep path →
      (join sep path).toList.splitOn sep = path.map String.toList := by
    rintro path ⟨hne, hclean⟩
    rw [join, String.toList_intercalate, String.toList_singleton]
    refine List.splitOn_intercalate sep ?_ (by simpa using hne)
    intro l hl
    obtain ⟨s, hs, rfl⟩ := List.mem_map.mp hl
    exact hclean s hs
  have hmap := (hsplit p hp).symm.trans ((congrArg (·.toList.splitOn sep) h).trans (hsplit q hq))
  exact List.map_injective_iff.mpr (fun _ _ => String.toList_inj.mp) hmap

theorem join_append (sep : Char) {p q : List String} (hp : p ≠ []) (hq : q ≠ []) :
    join sep (p ++ q) = join sep p ++ String.singleton sep ++ join sep q :=
  String.intercalate_append_of_ne_nil hp hq

/-! ## Branches -/

/-- Below a fixed name, a branch for each element under a name of its own. -/
def branches (fixed : σ) (name : α → σ) (below : α → List (List σ)) (l : List α) : List (List σ) :=
  l.flatMap fun a => (below a).map fun path => fixed :: name a :: path

section
variable {fixed : σ} {name : α → σ} {below : α → List (List σ)} {l : List α}

theorem mem_branches {path : List σ} (h : path ∈ branches fixed name below l) :
    ∃ a ∈ l, ∃ rest ∈ below a, path = fixed :: name a :: rest := by
  obtain ⟨a, ha, hpath⟩ := List.mem_flatMap.mp h
  obtain ⟨rest, hrest, rfl⟩ := List.mem_map.mp hpath
  exact ⟨a, ha, rest, hrest, rfl⟩

theorem nodup_branches (hnames : (l.map name).Nodup) (hbelow : ∀ a ∈ l, (below a).Nodup) :
    (branches fixed name below l).Nodup := by
  rw [branches, List.nodup_flatMap]
  refine ⟨fun a ha => (hbelow a ha).map ?_, (List.pairwise_map.mp hnames).imp ?_⟩
  · intro p q hpq
    simpa using hpq
  · intro a b hab path hpath hpath'
    obtain ⟨p, -, rfl⟩ := List.mem_map.mp hpath
    obtain ⟨q, -, hq⟩ := List.mem_map.mp hpath'
    rw [List.cons.injEq, List.cons.injEq] at hq
    exact hab hq.2.1.symm

end

end RcdServer.Lib.Paths
