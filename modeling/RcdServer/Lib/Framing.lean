import Mathlib.Data.List.Basic

/-!
# Frames in a stream

A reader collects what arrives in pieces until the length of a frame is known and all of it is
there. Frames that announce their own length come out whole, however the stream was split.
-/
namespace RcdServer.Lib.Framing

variable {α γ : Type*} {len : List α → Option Nat} {bytes : γ → List α}

/-- No part of the frame passes for a frame, and whatever follows it is not counted in. -/
structure Delimited (len : List α → Option Nat) (frame : List α) : Prop where
  early : ∀ buf, buf <+: frame → buf ≠ frame → len buf = none
  exact : ∀ tail, len (frame ++ tail) = some frame.length

theorem Delimited.of_prefix {frame : List α}
    (h : ∀ buf tail, buf <+: frame ++ tail →
      len buf = if frame.length ≤ buf.length then some frame.length else none) :
    Delimited len frame where
  early := by
    intro buf hpart hmore
    have hlt : buf.length < frame.length :=
      Nat.lt_of_le_of_ne hpart.length_le fun hlen => hmore (hpart.eq_of_length hlen)
    rw [h buf [] (by rwa [List.append_nil]), if_neg (by omega)]
  exact := by
    intro tail
    rw [h (frame ++ tail) tail (List.prefix_refl _), if_pos (by simp)]

/-- Reads until a frame is complete: the frame, what was read beyond it, and the pieces left. -/
def gather (len : List α → Option Nat) (bytes : γ → List α) (buf : List α) :
    List γ → Option (List α × List α × List γ)
  | [] => (len buf).map fun n => (buf.take n, buf.drop n, [])
  | piece :: pieces =>
    match len buf with
    | some n => some (buf.take n, buf.drop n, piece :: pieces)
    | none => gather len bytes (buf ++ bytes piece) pieces

theorem gather_complete {buf : List α} {n : Nat} (h : len buf = some n) (pieces : List γ) :
    gather len bytes buf pieces = some (buf.take n, buf.drop n, pieces) := by
  cases pieces <;> simp [gather, h]

theorem gather_incomplete {buf : List α} (h : len buf = none) (piece : γ) (pieces : List γ) :
    gather len bytes buf (piece :: pieces) = gather len bytes (buf ++ bytes piece) pieces := by
  simp [gather, h]

theorem gather_delimited {frame : List α} (hframe : Delimited len frame) {buf tail : List α}
    {pieces : List γ} (h : buf ++ pieces.flatMap bytes = frame ++ tail) :
    ∃ rest left, gather len bytes buf pieces = some (frame, rest, left) ∧
      rest ++ left.flatMap bytes = tail ∧ left <:+ pieces := by
  induction pieces generalizing buf with
  | nil =>
    rw [List.flatMap_nil, List.append_nil] at h
    subst h
    refine ⟨tail, [], ?_, by simp, List.suffix_refl _⟩
    rw [gather_complete (hframe.exact tail), List.take_left, List.drop_left]
  | cons piece pieces ih =>
    by_cases hwhole : frame <+: buf
    · obtain ⟨rest, rfl⟩ := hwhole
      rw [List.append_assoc] at h
      refine ⟨rest, piece :: pieces, ?_, List.append_cancel_left h, List.suffix_refl _⟩
      rw [gather_complete (hframe.exact rest), List.take_left, List.drop_left]
    · have hpart : buf <+: frame :=
        (List.prefix_or_prefix_of_prefix ⟨_, h⟩ ⟨_, rfl⟩).resolve_right hwhole
      have hmore : buf ≠ frame := fun heq => hwhole (heq ▸ List.prefix_refl _)
      rw [gather_incomplete (hframe.early buf hpart hmore)]
      rw [List.flatMap_cons, ← List.append_assoc] at h
      obtain ⟨rest, left, hgather, htail, hleft⟩ := ih h
      exact ⟨rest, left, hgather, htail, hleft.trans (List.suffix_cons _ _)⟩

end RcdServer.Lib.Framing
