import Mathlib.Data.List.Basic

/-!
# Overwriting one chunk of a buffer

A buffer that is the concatenation of chunks. Copying a slice of the right length over one
chunk exchanges that chunk and leaves the others alone, so the buffer is determined by what
was last copied over each of them. The windows of the chunks lie side by side.
-/
namespace RcdServer.Lib.Chunks

variable {α : Type*}

/-- `buffer[start..start + slice.len()].copy_from_slice(slice)`, within the bounds. -/
def overwrite (buffer : List α) (start : Nat) (slice : List α) : List α :=
  buffer.take start ++ slice ++ buffer.drop (start + slice.length)

def offset (chunks : List (List α)) (i : Nat) : Nat := (chunks.take i).flatten.length

theorem overwrite_flatten {chunks : List (List α)} {i : Nat} {chunk slice : List α}
    (hi : chunks[i]? = some chunk) (hlen : slice.length = chunk.length) :
    overwrite chunks.flatten (offset chunks i) slice = (chunks.set i slice).flatten := by
  induction chunks generalizing i with
  | nil => cases hi
  | cons c cs ih =>
    cases i with
    | zero =>
      obtain rfl : c = chunk := by simpa using hi
      simp [overwrite, offset, hlen]
    | succ i =>
      have hrest := ih (by simpa using hi)
      have hoff : offset (c :: cs) (i + 1) = c.length + offset cs i := by simp [offset]
      rw [hoff, List.set_cons_succ, List.flatten_cons, List.flatten_cons, ← hrest]
      simp only [overwrite, Nat.add_assoc, List.take_append, List.drop_append,
        Nat.add_sub_cancel_left, List.append_assoc]
      rw [List.take_of_length_le (Nat.le_add_right _ _), List.drop_of_length_le (Nat.le_add_right _ _)]
      rfl

/-! ## Windows -/

/-- `buffer[start..start + size]`, within the bounds. -/
def window (buffer : List α) (start size : Nat) : List α := (buffer.drop start).take size

section Windows

variable {buffer slice : List α} {start : Nat}

theorem length_overwrite (h : start + slice.length ≤ buffer.length) :
    (overwrite buffer start slice).length = buffer.length := by
  simp only [overwrite, List.length_append, List.length_take, List.length_drop]
  omega

theorem getElem?_overwrite (h : start + slice.length ≤ buffer.length) (i : Nat) :
    (overwrite buffer start slice)[i]? =
      if start ≤ i ∧ i < start + slice.length then slice[i - start]? else buffer[i]? := by
  have hstart : (buffer.take start).length = start := List.length_take_of_le (by omega)
  simp only [overwrite, List.append_assoc]
  by_cases hbelow : i < start
  · rw [List.getElem?_append_left (by omega), List.getElem?_take_of_lt hbelow, if_neg (by omega)]
  rw [List.getElem?_append_right (by omega), hstart]
  by_cases hinside : i < start + slice.length
  · rw [List.getElem?_append_left (by omega), if_pos ⟨by omega, hinside⟩]
  · rw [List.getElem?_append_right (by omega), if_neg (by omega), List.getElem?_drop]
    congr 1
    omega

theorem getElem?_window (buffer : List α) (start size i : Nat) :
    (window buffer start size)[i]? = if i < size then buffer[start + i]? else none := by
  rw [window, List.getElem?_take, List.getElem?_drop]

/-- The window that was written holds what was written. -/
theorem window_overwrite_self (h : start + slice.length ≤ buffer.length) :
    window (overwrite buffer start slice) start slice.length = slice := by
  apply List.ext_getElem?
  intro i
  rw [getElem?_window, getElem?_overwrite h]
  by_cases hi : i < slice.length
  · rw [if_pos hi, if_pos ⟨by omega, by omega⟩, Nat.add_sub_cancel_left]
  · rw [if_neg hi, List.getElem?_eq_none (by omega)]

theorem window_overwrite_other (h : start + slice.length ≤ buffer.length) {other size : Nat}
    (hapart : other + size ≤ start ∨ start + slice.length ≤ other) :
    window (overwrite buffer start slice) other size = window buffer other size := by
  apply List.ext_getElem?
  intro i
  rw [getElem?_window, getElem?_window, getElem?_overwrite h]
  split_ifs with hi hinside
  · omega
  · rfl
  · rfl

theorem overwrite_comm {slice' : List α} {start' : Nat} (h : start + slice.length ≤ buffer.length)
    (h' : start' + slice'.length ≤ buffer.length)
    (hapart : start' + slice'.length ≤ start ∨ start + slice.length ≤ start') :
    overwrite (overwrite buffer start slice) start' slice' =
      overwrite (overwrite buffer start' slice') start slice := by
  apply List.ext_getElem?
  intro i
  rw [getElem?_overwrite (by rwa [length_overwrite h]), getElem?_overwrite h,
    getElem?_overwrite (by rwa [length_overwrite h']), getElem?_overwrite h']
  split_ifs with hin' hin
  · omega
  · rfl
  · rfl
  · rfl

end Windows

/-! ## Windows side by side -/

section SideBySide

variable {β : Type*} (pos len : β → Nat)

/-- The windows follow each other without a gap from `start` to `stop`. -/
def SideBySide : Nat → List β → Nat → Prop
  | start, [], stop => start = stop
  | start, x :: xs, stop => pos x = start ∧ SideBySide (start + len x) xs stop

instance decidableSideBySide : ∀ start xs stop, Decidable (SideBySide pos len start xs stop)
  | start, [], stop => inferInstanceAs (Decidable (start = stop))
  | start, x :: xs, stop =>
    have := decidableSideBySide (start + len x) xs stop
    inferInstanceAs (Decidable (_ ∧ _))

variable {pos len}
variable {start stop : Nat} {xs : List β}

theorem SideBySide.within (h : SideBySide pos len start xs stop) :
    start ≤ stop ∧ ∀ x ∈ xs, start ≤ pos x ∧ pos x + len x ≤ stop := by
  induction xs generalizing start with
  | nil => exact ⟨Nat.le_of_eq h, by simp⟩
  | cons x xs ih =>
    obtain ⟨hpos, hrest⟩ := h
    obtain ⟨hle, hall⟩ := ih hrest
    refine ⟨by omega, List.forall_mem_cons.mpr ⟨⟨by omega, by omega⟩, ?_⟩⟩
    intro y hy
    obtain ⟨hfrom, hto⟩ := hall y hy
    exact ⟨by omega, hto⟩

theorem SideBySide.apart (h : SideBySide pos len start xs stop) :
    ∀ x ∈ xs, ∀ y ∈ xs, x ≠ y → pos y + len y ≤ pos x ∨ pos x + len x ≤ pos y := by
  induction xs generalizing start with
  | nil => simp
  | cons z zs ih =>
    obtain ⟨hpos, hrest⟩ := h
    have hbehind : ∀ y ∈ zs, pos z + len z ≤ pos y := by
      intro y hy
      have := (hrest.within.2 y hy).1
      omega
    intro x hx y hy hne
    rcases List.mem_cons.mp hx with rfl | hx'
    · rcases List.mem_cons.mp hy with rfl | hy'
      · exact absurd rfl hne
      · exact .inr (hbehind y hy')
    · rcases List.mem_cons.mp hy with rfl | hy'
      · exact .inl (hbehind x hx')
      · exact ih hrest x hx' y hy' hne

theorem SideBySide.covers (h : SideBySide pos len start xs stop) {i : Nat} (hfrom : start ≤ i)
    (hto : i < stop) : ∃ x ∈ xs, pos x ≤ i ∧ i < pos x + len x := by
  induction xs generalizing start with
  | nil =>
    have : start = stop := h
    omega
  | cons x xs ih =>
    obtain ⟨hpos, hrest⟩ := h
    by_cases hi : i < start + len x
    · exact ⟨x, List.mem_cons_self, by omega, by omega⟩
    · obtain ⟨y, hy, hinside⟩ := ih hrest (by omega)
      exact ⟨y, List.mem_cons_of_mem _ hy, hinside⟩

/-- Every place belongs to one window. -/
theorem SideBySide.existsUnique (h : SideBySide pos len start xs stop) {i : Nat}
    (hfrom : start ≤ i) (hto : i < stop) : ∃! x, x ∈ xs ∧ pos x ≤ i ∧ i < pos x + len x := by
  obtain ⟨x, hx, hinside⟩ := h.covers hfrom hto
  refine ⟨x, ⟨hx, hinside⟩, fun y ⟨hy, hinside'⟩ => ?_⟩
  by_contra hne
  rcases h.apart x hx y hy (Ne.symm hne) with hxy | hxy <;> omega

end SideBySide

end RcdServer.Lib.Chunks
