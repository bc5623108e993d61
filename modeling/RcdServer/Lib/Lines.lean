import Mathlib.Algebra.GroupWithZero.Nat
import Mathlib.Data.List.DropRight
import Mathlib.Data.List.Flatten
import Mathlib.Data.List.Infix

/-!
# Lines and pages

The lines of a text that grows at its end and may stop in the middle of a line, the first elements
with each key, and the pages of a list.
-/
namespace RcdServer.Lib.Lines

variable {α κ : Type*}

/-! ## Lines -/

section
variable {nl : α} {content : List α} {ls : List (List α)}

/-- Lines as they are stored. -/
def stored (nl : α) (ls : List (List α)) : List α := ls.flatMap (· ++ [nl])

/-- Whole lines and what may follow them. -/
structure Stores (nl : α) (content : List α) (ls : List (List α)) (rest : List α) : Prop where
  content_eq : content = stored nl ls ++ rest
  lines_end : ∀ l ∈ ls, nl ∉ l
  rest_open : nl ∉ rest

theorem stored_cons (l : List α) (ls : List (List α)) :
    stored nl (l :: ls) = l ++ nl :: stored nl ls := by
  rw [stored, List.flatMap_cons, List.append_assoc]
  rfl

theorem stored_append (ls ls' : List (List α)) :
    stored nl (ls ++ ls') = stored nl ls ++ stored nl ls' := List.flatMap_append

theorem stores_nil (nl : α) : Stores nl [] [] [] :=
  ⟨rfl, fun _ h => absurd h List.not_mem_nil, List.not_mem_nil⟩

theorem getLast_stored (h : stored nl ls ≠ []) : (stored nl ls).getLast h = nl := by
  induction ls using List.reverseRecOn with
  | nil => exact absurd rfl h
  | append_singleton ls l ih =>
    have hlast : stored nl (ls ++ [l]) = stored nl ls ++ l ++ [nl] := by
      rw [stored_append, stored_cons, List.append_assoc]
      rfl
    simp only [hlast, List.getLast_append_singleton]

theorem Stores.append {ls' : List (List α)} {rest : List α} (h : Stores nl content ls [])
    {more : List α} (h' : Stores nl more ls' rest) :
    Stores nl (content ++ more) (ls ++ ls') rest where
  content_eq := by
    rw [h.content_eq, h'.content_eq, stored_append, List.append_nil, List.append_assoc]
  lines_end := by
    intro l hl
    rcases List.mem_append.mp hl with hl | hl
    · exact h.lines_end l hl
    · exact h'.lines_end l hl
  rest_open := h'.rest_open

/-- What has been stored when storing lines stops early: some of the lines and a part of the
next. -/
theorem stores_take (hends : ∀ l ∈ ls, nl ∉ l) (n : Nat) :
    ∃ k rest, Stores nl ((stored nl ls).take n) (ls.take k) rest ∧
      (rest = [] ∨ ∃ l ∈ ls, rest <+: l) := by
  induction ls generalizing n with
  | nil => exact ⟨0, [], by simpa [stored] using stores_nil nl, Or.inl rfl⟩
  | cons l ls ih =>
    by_cases hn : n ≤ l.length
    · refine ⟨0, l.take n, ⟨?_, by simp, ?_⟩, Or.inr ⟨l, List.mem_cons_self, List.take_prefix n l⟩⟩
      · rw [stored_cons, List.take_append_of_le_length hn]
        rfl
      · exact fun h => hends l List.mem_cons_self (List.mem_of_mem_take h)
    · obtain ⟨m, rfl⟩ : ∃ m, n = l.length + (m + 1) := ⟨n - l.length - 1, by omega⟩
      obtain ⟨k, rest, h, hpart⟩ := ih (fun l' hl' => hends l' (List.mem_cons_of_mem l hl')) m
      refine ⟨k + 1, rest, ⟨?_, ?_, h.rest_open⟩, hpart.imp_right ?_⟩
      · rw [stored_cons, List.take_length_add_append, List.take_succ_cons, h.content_eq,
          List.take_succ_cons, stored_cons]
        simp
      · intro l' hl'
        rw [List.take_succ_cons] at hl'
        rcases List.mem_cons.mp hl' with rfl | hl'
        · exact hends _ List.mem_cons_self
        · exact h.lines_end l' hl'
      · rintro ⟨l', hl', hpre⟩
        exact ⟨l', List.mem_cons_of_mem l hl', hpre⟩

variable [DecidableEq α]

/-- The end of a line belongs to the line in front of it; without an end the last line is what
follows the last end, if there is anything. -/
def lines (nl : α) : List α → List (List α)
  | [] => []
  | c :: cs =>
    if c = nl then [] :: lines nl cs
    else
      match lines nl cs with
      | [] => [[c]]
      | l :: ls => (c :: l) :: ls

/-- What is stored up to the end of the last whole line. -/
def whole (nl : α) (content : List α) : List α := content.rdropWhile (· ≠ nl)

/-- The position of the last end of a line. -/
def lastIndex (nl : α) : List α → Option Nat
  | [] => none
  | c :: cs =>
    match lastIndex nl cs with
    | some i => some (i + 1)
    | none => if c = nl then some 0 else none

/-- Lines with their ends, and what follows the last end, if there is anything. -/
def splitInclusive (nl : α) : List α → List (List α)
  | [] => []
  | c :: cs =>
    if c = nl then [c] :: splitInclusive nl cs
    else
      match splitInclusive nl cs with
      | [] => [[c]]
      | l :: ls => (c :: l) :: ls

theorem lines_nl (nl : α) (cs : List α) : lines nl (nl :: cs) = [] :: lines nl cs := by
  rw [lines, if_pos rfl]

theorem lines_cons {c : α} (h : c ≠ nl) (cs : List α) :
    lines nl (c :: cs) = match lines nl cs with
      | [] => [[c]]
      | l :: ls => (c :: l) :: ls := by
  rw [lines, if_neg h]

theorem lines_ne_nil (h : content ≠ []) : lines nl content ≠ [] := by
  cases content with
  | nil => exact absurd rfl h
  | cons c cs =>
    rw [lines]
    split_ifs
    · exact List.cons_ne_nil _ _
    · split <;> exact List.cons_ne_nil _ _

theorem lines_open (h : nl ∉ content) :
    lines nl content = if content = [] then [] else [content] := by
  induction content with
  | nil => rfl
  | cons c cs ih =>
    rw [List.mem_cons, not_or] at h
    rw [lines_cons (Ne.symm h.1), ih h.2, if_neg (List.cons_ne_nil c cs)]
    cases cs <;> rfl

theorem lines_line {l : List α} (h : nl ∉ l) (rest : List α) :
    lines nl (l ++ nl :: rest) = l :: lines nl rest := by
  induction l with
  | nil => exact lines_nl nl rest
  | cons c cs ih =>
    rw [List.mem_cons, not_or] at h
    rw [List.cons_append, lines_cons (Ne.symm h.1), ih h.2]

theorem Stores.lines_eq {rest : List α} (h : Stores nl content ls rest) :
    lines nl content = ls ++ if rest = [] then [] else [rest] := by
  obtain ⟨rfl, hends, hopen⟩ := h
  induction ls with
  | nil => exact lines_open hopen
  | cons l ls ih =>
    rw [stored_cons, List.append_assoc, List.cons_append, lines_line (hends l List.mem_cons_self),
      ih fun l' hl' => hends l' (List.mem_cons_of_mem l hl'), List.cons_append]

theorem whole_open (h : nl ∉ content) : whole nl content = [] := by
  rw [whole, List.rdropWhile_eq_nil_iff]
  intro c hc
  simpa using fun hnl : c = nl => h (hnl ▸ hc)

theorem whole_append {rest : List α} (h : nl ∉ rest) (content : List α) :
    whole nl (content ++ rest) = whole nl content := by
  induction rest using List.reverseRecOn with
  | nil => rw [List.append_nil]
  | append_singleton rest c ih =>
    rw [List.mem_append, List.mem_singleton, not_or] at h
    rw [whole, ← List.append_assoc, List.rdropWhile_concat_pos _ _ _ (by simpa using Ne.symm h.2)]
    exact ih h.1

theorem whole_of_getLast (h : ∀ hne : content ≠ [], content.getLast hne = nl) :
    whole nl content = content := by
  rw [whole, List.rdropWhile_eq_self_iff]
  intro hne
  simp [h hne]

theorem Stores.whole_eq {rest : List α} (h : Stores nl content ls rest) :
    whole nl content = stored nl ls := by
  rw [h.content_eq, whole_append h.rest_open, whole_of_getLast getLast_stored]

theorem Stores.whole {rest : List α} (h : Stores nl content ls rest) :
    Stores nl (whole nl content) ls [] :=
  ⟨by rw [h.whole_eq, List.append_nil], h.lines_end, List.not_mem_nil⟩

theorem lastIndex_none (h : lastIndex nl content = none) : nl ∉ content := by
  induction content with
  | nil => exact List.not_mem_nil
  | cons c cs ih =>
    rw [lastIndex] at h
    cases hrest : lastIndex nl cs with
    | some i => simp [hrest] at h
    | none =>
      rw [hrest] at h
      rw [List.mem_cons, not_or]
      refine ⟨fun hc => ?_, ih hrest⟩
      simp [← hc] at h

theorem lastIndex_some {i : Nat} (h : lastIndex nl content = some i) :
    ∃ front rest, content = front ++ nl :: rest ∧ front.length = i ∧ nl ∉ rest := by
  induction content generalizing i with
  | nil => cases h
  | cons c cs ih =>
    rw [lastIndex] at h
    cases hrest : lastIndex nl cs with
    | some k =>
      obtain ⟨front, rest, rfl, rfl, hopen⟩ := ih hrest
      rw [hrest] at h
      exact ⟨c :: front, rest, rfl, Option.some.inj h, hopen⟩
    | none =>
      rw [hrest] at h
      have hc : c = nl := by
        by_contra hne
        simp [hne] at h
      rw [hc] at h
      exact ⟨[], cs, by rw [hc, List.nil_append], by simpa using h, lastIndex_none hrest⟩

theorem Stores.rest_of_open {rest : List α} (h : Stores nl content ls rest) (hopen : nl ∉ content) :
    rest = content := by
  have hnone : stored nl ls = [] := by rw [← h.whole_eq, whole_open hopen]
  rw [h.content_eq, hnone, List.nil_append]

/-- What follows the last end of a line can be told from what is in front of it. -/
theorem Stores.rest_of_last {rest front back : List α} (h : Stores nl content ls rest)
    (hcontent : content = front ++ nl :: back) (hback : nl ∉ back) : rest = back := by
  have hsplit : content = (front ++ [nl]) ++ back := by simp [hcontent]
  have hfront : stored nl ls = front ++ [nl] := by
    rw [← h.whole_eq, hsplit, whole_append hback, whole_of_getLast (by simp)]
  rw [h.content_eq, hfront] at hsplit
  exact List.append_cancel_left hsplit

/-- An end without an end of a line is part of what follows the last one. -/
theorem Stores.length_le_rest {rest front back : List α} (h : Stores nl content ls rest)
    (hcontent : content = front ++ back) (hback : nl ∉ back) : back.length ≤ rest.length := by
  have hwhole : stored nl ls = Lines.whole nl front := by
    rw [← h.whole_eq, hcontent, whole_append hback]
  have hle := (List.rdropWhile_prefix (fun c => decide (c ≠ nl)) front).length_le
  change (Lines.whole nl front).length ≤ front.length at hle
  have hlen := congrArg List.length (hcontent.symm.trans h.content_eq)
  rw [hwhole, List.length_append, List.length_append] at hlen
  omega

/-- Every content is made of whole lines and what follows them. -/
theorem exists_stores (nl : α) (content : List α) : ∃ ls rest, Stores nl content ls rest := by
  induction content with
  | nil => exact ⟨[], [], stores_nil nl⟩
  | cons c cs ih =>
    obtain ⟨ls, rest, h⟩ := ih
    by_cases hc : c = nl
    · refine ⟨[] :: ls, rest, by rw [hc, stored_cons, h.content_eq]; rfl, ?_, h.rest_open⟩
      intro l hl
      rcases List.mem_cons.mp hl with rfl | hl
      · exact List.not_mem_nil
      · exact h.lines_end l hl
    · cases ls with
      | nil =>
        refine ⟨[], c :: rest, by rw [h.content_eq]; rfl, fun _ h => absurd h List.not_mem_nil, ?_⟩
        rw [List.mem_cons, not_or]
        exact ⟨Ne.symm hc, h.rest_open⟩
      | cons l ls =>
        refine ⟨(c :: l) :: ls, rest, ?_, ?_, h.rest_open⟩
        · rw [h.content_eq, stored_cons, stored_cons]
          rfl
        · intro l' hl'
          rcases List.mem_cons.mp hl' with rfl | hl'
          · rw [List.mem_cons, not_or]
            exact ⟨Ne.symm hc, h.lines_end l List.mem_cons_self⟩
          · exact h.lines_end l' (List.mem_cons_of_mem l hl')

theorem mem_whole (h : nl ∈ content) : nl ∈ whole nl content := by
  obtain ⟨ls, rest, hstores⟩ := exists_stores nl content
  rw [hstores.whole_eq]
  rw [hstores.content_eq] at h
  exact (List.mem_append.mp h).resolve_right hstores.rest_open

theorem splitInclusive_open_append {front : List α} (h : nl ∉ front) (content : List α) :
    splitInclusive nl (front ++ content) =
      match splitInclusive nl content with
      | [] => if front = [] then [] else [front]
      | l :: ls => (front ++ l) :: ls := by
  induction front with
  | nil =>
    rw [List.nil_append]
    cases splitInclusive nl content <;> rfl
  | cons c cs ih =>
    rw [List.mem_cons, not_or] at h
    rw [List.cons_append, splitInclusive, if_neg (Ne.symm h.1), ih h.2]
    cases splitInclusive nl content with
    | nil => cases cs <;> rfl
    | cons l ls => rfl

theorem splitInclusive_line {l : List α} (h : nl ∉ l) (content : List α) :
    splitInclusive nl (l ++ nl :: content) = (l ++ [nl]) :: splitInclusive nl content := by
  rw [splitInclusive_open_append h, splitInclusive, if_pos rfl]

theorem splitInclusive_open (h : nl ∉ content) :
    splitInclusive nl content = if content = [] then [] else [content] := by
  have hsplit := splitInclusive_open_append h []
  rwa [List.append_nil] at hsplit

theorem flatten_splitInclusive (nl : α) (content : List α) :
    (splitInclusive nl content).flatten = content := by
  induction content with
  | nil => rfl
  | cons c cs ih =>
    rw [splitInclusive]
    split_ifs with hc
    · rw [List.flatten_cons, ih, List.singleton_append]
    · cases hrest : splitInclusive nl cs with
      | nil =>
        rw [hrest] at ih
        rw [← ih]
        rfl
      | cons l ls =>
        rw [hrest] at ih
        rw [← ih]
        rfl

theorem splitInclusive_eq_nil : splitInclusive nl content = [] ↔ content = [] := by
  constructor
  · intro h
    rw [← flatten_splitInclusive nl content, h]
    rfl
  · rintro rfl
    rfl

/-- Only at its end does a line hold an end of a line, and the last line alone may have none. -/
theorem splitInclusive_cons {l : List α} (h : splitInclusive nl content = l :: ls) :
    splitInclusive nl ls.flatten = ls ∧
      ∃ front, nl ∉ front ∧ (l = front ++ [nl] ∨ l = front ∧ front ≠ [] ∧ ls = []) := by
  obtain ⟨whole, rest, hcontent, hends, hopen⟩ := exists_stores nl content
  cases whole with
  | nil =>
    obtain rfl : content = rest := hcontent
    rw [splitInclusive_open hopen] at h
    split_ifs at h with hnil
    obtain ⟨rfl, rfl⟩ := List.cons.inj h
    exact ⟨rfl, content, hopen, Or.inr ⟨rfl, hnil, rfl⟩⟩
  | cons front whole =>
    rw [hcontent, stored_cons, List.append_assoc, List.cons_append,
      splitInclusive_line (hends front List.mem_cons_self)] at h
    obtain ⟨rfl, rfl⟩ := List.cons.inj h
    exact ⟨by rw [flatten_splitInclusive], front, hends front List.mem_cons_self, Or.inl rfl⟩

theorem ne_nil_of_mem_splitInclusive {l : List α} (h : l ∈ splitInclusive nl content) :
    l ≠ [] := by
  induction hls : splitInclusive nl content generalizing content with
  | nil =>
    rw [hls] at h
    exact absurd h List.not_mem_nil
  | cons first rest ih =>
    obtain ⟨hrest, front, -, hfirst⟩ := splitInclusive_cons hls
    rw [hls] at h
    rcases List.mem_cons.mp h with rfl | h
    · rcases hfirst with rfl | ⟨rfl, hne, -⟩
      · simp
      · exact hne
    · rw [← hrest] at h
      exact ih h hrest

/-- What is left of the first line is a line in front of the others. -/
theorem splitInclusive_back {front back : List α}
    (h : splitInclusive nl content = (front ++ back) :: ls) (hback : back ≠ []) :
    nl ∉ front ∧ splitInclusive nl (back ++ ls.flatten) = back :: ls := by
  obtain ⟨hrest, line, hline, hshape⟩ := splitInclusive_cons h
  have hopen : nl ∉ front := by
    intro hmem
    obtain ⟨b, bs, rfl⟩ := List.exists_cons_of_ne_nil hback
    rcases hshape with heq | ⟨heq, -, -⟩
    · have hfront : front <+: line := by
        refine List.prefix_of_prefix_length_le (List.prefix_append front (b :: bs)) ?_ ?_
        · rw [heq]
          exact List.prefix_append line [nl]
        · have := congrArg List.length heq
          simp only [List.length_append, List.length_cons, List.length_nil] at this
          omega
      exact hline (hfront.subset hmem)
    · exact hline (heq ▸ List.mem_append_left _ hmem)
  have hcontent := flatten_splitInclusive nl content
  rw [h, List.flatten_cons, List.append_assoc] at hcontent
  refine ⟨hopen, ?_⟩
  have hsplit := splitInclusive_open_append hopen (back ++ ls.flatten)
  rw [hcontent, h] at hsplit
  cases hlines : splitInclusive nl (back ++ ls.flatten) with
  | nil => simp [splitInclusive_eq_nil, hback] at hlines
  | cons l more =>
    rw [hlines] at hsplit
    obtain ⟨hl, rfl⟩ := List.cons.inj hsplit
    rw [List.append_cancel_left hl]

/-- Whole lines are split on their own. -/
theorem splitInclusive_whole_append (nl : α) (front back : List α) :
    splitInclusive nl (whole nl front ++ back) =
      splitInclusive nl (whole nl front) ++ splitInclusive nl back := by
  obtain ⟨ls, rest, hstores⟩ := exists_stores nl front
  rw [hstores.whole_eq]
  have hends := hstores.lines_end
  clear hstores
  induction ls with
  | nil => rfl
  | cons l ls ih =>
    rw [stored_cons, List.append_assoc, List.cons_append,
      splitInclusive_line (hends l List.mem_cons_self),
      splitInclusive_line (hends l List.mem_cons_self),
      ih fun l' hl' => hends l' (List.mem_cons_of_mem l hl'), List.cons_append]

end

/-! ## First elements -/

section
variable [DecidableEq κ] {key : α → κ} {l : List α}

/-- The elements whose key none before them has. -/
def firsts (key : α → κ) : List α → List α
  | [] => []
  | a :: l => a :: (firsts key l).filter (key · ≠ key a)

theorem firsts_sublist (key : α → κ) (l : List α) : (firsts key l).Sublist l := by
  induction l with
  | nil => exact List.Sublist.refl _
  | cons a l ih => exact (List.filter_sublist.trans ih).cons_cons a

theorem firsts_pairwise (key : α → κ) (l : List α) :
    (firsts key l).Pairwise fun a b => key a ≠ key b := by
  induction l with
  | nil => exact List.Pairwise.nil
  | cons a l ih =>
    refine List.Pairwise.cons ?_ (ih.sublist List.filter_sublist)
    intro b hb
    exact Ne.symm (by simpa using (List.mem_filter.mp hb).2)

theorem firsts_append_singleton (l : List α) (a : α) :
    firsts key (l ++ [a]) =
      if key a ∈ (firsts key l).map key then firsts key l else firsts key l ++ [a] := by
  induction l with
  | nil => rfl
  | cons b l ih =>
    have hmem : key a ∈ (b :: (firsts key l).filter (key · ≠ key b)).map key ↔
        key a = key b ∨ key a ∈ (firsts key l).map key ∧ key a ≠ key b := by
      simp only [List.map_cons, List.mem_cons, List.mem_map, List.mem_filter, decide_eq_true_eq]
      refine or_congr_right ⟨?_, ?_⟩
      · rintro ⟨c, ⟨hc, hne⟩, heq⟩
        exact ⟨⟨c, hc, heq⟩, heq ▸ hne⟩
      · rintro ⟨⟨c, hc, heq⟩, hne⟩
        exact ⟨c, ⟨hc, heq ▸ hne⟩, heq⟩
    rw [List.cons_append, firsts, firsts, ih]
    by_cases hsame : key a = key b
    · rw [if_pos (hmem.mpr (Or.inl hsame))]
      split_ifs
      · rfl
      · rw [List.filter_append, List.filter_cons_of_neg (by simpa using hsame), List.filter_nil,
          List.append_nil]
    · by_cases hknown : key a ∈ (firsts key l).map key
      · rw [if_pos hknown, if_pos (hmem.mpr (Or.inr ⟨hknown, hsame⟩))]
      · have hnew : key a ∉ (b :: (firsts key l).filter (key · ≠ key b)).map key := fun h =>
          (hmem.mp h).elim hsame fun h => hknown h.1
        rw [if_neg hknown, if_neg hnew, List.filter_append,
          List.filter_cons_of_pos (by simpa using hsame), List.filter_nil, List.cons_append]

theorem exists_mem_firsts {a : α} (h : a ∈ l) : ∃ b ∈ firsts key l, key b = key a := by
  induction l with
  | nil => exact absurd h List.not_mem_nil
  | cons c l ih =>
    by_cases hkey : key c = key a
    · exact ⟨c, List.mem_cons_self, hkey⟩
    · have hl : a ∈ l := by
        rcases List.mem_cons.mp h with rfl | hl
        · exact absurd rfl hkey
        · exact hl
      obtain ⟨b, hb, hb'⟩ := ih hl
      refine ⟨b, List.mem_cons_of_mem c (List.mem_filter.mpr ⟨hb, ?_⟩), hb'⟩
      rw [hb']
      simpa using Ne.symm hkey

end

/-! ## Pages -/

def page (all : List α) (offset limit : Nat) : List α := (all.drop offset).take limit

/-- An element at the end is on the page if it is not before it and the page is not full. -/
theorem page_append_singleton (all : List α) (a : α) (offset limit : Nat) :
    page (all ++ [a]) offset limit =
      if offset ≤ all.length ∧ (page all offset limit).length < limit then
        page all offset limit ++ [a]
      else page all offset limit := by
  have hlen : (page all offset limit).length = min limit (all.length - offset) := by
    rw [page, List.length_take, List.length_drop]
  rw [hlen]
  by_cases hoffset : offset ≤ all.length
  · have hdrop : (all ++ [a]).drop offset = all.drop offset ++ [a] :=
      List.drop_append_of_le_length hoffset
    split_ifs with hroom
    · have hshort : (all.drop offset).length < limit := by
        rw [List.length_drop]
        omega
      have hmore : (all.drop offset ++ [a]).length ≤ limit := by
        rw [List.length_append]
        exact hshort
      rw [page, hdrop, page, List.take_of_length_le hmore,
        List.take_of_length_le (Nat.le_of_lt hshort)]
    · have hfull : limit ≤ (all.drop offset).length := by
        rw [List.length_drop]
        omega
      rw [page, hdrop, page, List.take_append_of_le_length hfull]
  · rw [if_neg fun h => hoffset h.1, page, page, List.drop_eq_nil_of_le (by simp; omega),
      List.drop_eq_nil_of_le (by omega)]

/-- Pages of these sizes, each behind the one before it. -/
def pages (all : List α) (offset : Nat) : List Nat → List (List α)
  | [] => []
  | limit :: limits => page all offset limit :: pages all (offset + limit) limits

theorem flatten_pages (all : List α) (offset : Nat) (limits : List Nat) :
    (pages all offset limits).flatten = page all offset limits.sum := by
  induction limits generalizing offset with
  | nil => simp [pages, page]
  | cons limit limits ih =>
    rw [pages, List.flatten_cons, ih, List.sum_cons, page, page, page, List.take_add,
      List.drop_drop]

/-- Pages that reach the end divide the list. -/
theorem flatten_pages_all {all : List α} {limits : List Nat} (h : all.length ≤ limits.sum) :
    (pages all 0 limits).flatten = all := by
  rw [flatten_pages, page, List.drop_zero, List.take_of_length_le h]

end RcdServer.Lib.Lines
