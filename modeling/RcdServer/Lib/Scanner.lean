import Mathlib.Algebra.BigOperators.Group.List.Basic
import Mathlib.Algebra.GroupWithZero.Nat

/-!
# Scanning a stream that arrives in pieces

A scanner looks at the front of its buffer: it waits, drops one symbol, or takes a block. When its
decision does not change with what arrives later, the outcome does not depend on how the stream is
divided. Every symbol is taken, dropped or left in the buffer.
-/
namespace RcdServer.Lib.Scanner

universe u v

variable {α : Type u} {β : Type v}

/-- What the front of a buffer shows. -/
inductive Look (β : Type v) where
  | wait
  | drop (rejected : Bool)
  | take (size : Nat) (out : β)
  deriving DecidableEq

@[ext]
structure Outcome (α : Type u) (β : Type v) where
  outs : List β
  rejected : Nat
  dropped : Nat
  rest : List α
  deriving DecidableEq

namespace Outcome

def waiting (buffer : List α) : Outcome α β := ⟨[], 0, 0, buffer⟩

/-- The outcome of going on where the first one has stopped. -/
def followed (o o' : Outcome α β) : Outcome α β :=
  ⟨o.outs ++ o'.outs, o.rejected + o'.rejected, o.dropped + o'.dropped, o'.rest⟩

theorem waiting_followed (buffer : List α) (o : Outcome α β) : (waiting buffer).followed o = o := by
  simp [waiting, followed]

theorem followed_assoc (o₁ o₂ o₃ : Outcome α β) :
    (o₁.followed o₂).followed o₃ = o₁.followed (o₂.followed o₃) := by
  simp [followed, Nat.add_assoc]

def dropping (rejected : Bool) (o : Outcome α β) : Outcome α β :=
  ⟨o.outs, o.rejected + rejected.toNat, o.dropped + 1, o.rest⟩

def taking (out : β) (o : Outcome α β) : Outcome α β := ⟨out :: o.outs, o.rejected, o.dropped, o.rest⟩

theorem dropping_followed (rejected : Bool) (o o' : Outcome α β) :
    (o.dropping rejected).followed o' = (o.followed o').dropping rejected := by
  simp only [followed, dropping, mk.injEq, true_and, and_true]
  omega

end Outcome

/-- A round consumes something, so the length of the buffer bounds the rounds. -/
def scan (look : List α → Look β) : Nat → List α → Outcome α β
  | 0, buffer => .waiting buffer
  | fuel + 1, buffer =>
    match look buffer with
    | .wait => .waiting buffer
    | .drop rejected => (scan look fuel (buffer.drop 1)).dropping rejected
    | .take size out => (scan look fuel (buffer.drop size)).taking out

def run (look : List α → Look β) (buffer : List α) : Outcome α β := scan look buffer.length buffer

/-- What is taken is there. -/
structure Lawful (look : List α → Look β) : Prop where
  nil : look [] = .wait
  take : ∀ {buffer size out}, look buffer = .take size out → 0 < size ∧ size ≤ buffer.length

section Runs

variable {look : List α → Look β}

/-- A round waits, drops one symbol or takes a block. -/
theorem scan_round (look : List α → Look β) (fuel : Nat) (buffer : List α) :
    (look buffer = .wait → scan look (fuel + 1) buffer = .waiting buffer) ∧
    (∀ rejected, look buffer = .drop rejected →
      scan look (fuel + 1) buffer = (scan look fuel (buffer.drop 1)).dropping rejected) ∧
    ∀ size out, look buffer = .take size out →
      scan look (fuel + 1) buffer = (scan look fuel (buffer.drop size)).taking out := by
  refine ⟨?_, ?_, ?_⟩
  · intro h
    simp only [scan, h]
  · intro rejected h
    simp only [scan, h]
  · intro size out h
    simp only [scan, h]

theorem scan_fuel (hlook : Lawful look) {fuel : Nat} {buffer : List α} (h : buffer.length ≤ fuel) :
    scan look fuel buffer = run look buffer := by
  induction fuel using Nat.strongRecOn generalizing buffer with
  | ind fuel ih =>
    cases buffer with
    | nil =>
      cases fuel with
      | zero => rfl
      | succ fuel => exact (scan_round look fuel []).1 hlook.nil
    | cons x xs =>
      obtain ⟨fuel, rfl⟩ : ∃ n, fuel = n + 1 := ⟨fuel - 1, by simp at h; omega⟩
      have hlen : xs.length ≤ fuel := by simpa using h
      show scan look (fuel + 1) (x :: xs) = scan look (xs.length + 1) (x :: xs)
      cases hx : look (x :: xs) with
      | wait => rw [(scan_round look fuel _).1 hx, (scan_round look xs.length _).1 hx]
      | drop rejected =>
        rw [(scan_round look fuel _).2.1 _ hx, (scan_round look xs.length _).2.1 _ hx]
        simp only [List.drop_succ_cons, List.drop_zero]
        rw [ih fuel (Nat.lt_succ_self _) hlen]
        rfl
      | take size out =>
        obtain ⟨hpos, -⟩ := hlook.take hx
        have hrest : ((x :: xs).drop size).length ≤ xs.length := by
          rw [List.length_drop, List.length_cons]
          omega
        rw [(scan_round look fuel _).2.2 _ _ hx, (scan_round look xs.length _).2.2 _ _ hx,
          ih fuel (Nat.lt_succ_self _) (Nat.le_trans hrest hlen), ih xs.length (by omega) hrest]

theorem run_wait {buffer : List α} (h : look buffer = .wait) : run look buffer = .waiting buffer := by
  unfold run
  cases hlen : buffer.length with
  | zero => rfl
  | succ n => exact (scan_round look n buffer).1 h

theorem run_drop (hlook : Lawful look) {buffer : List α} {rejected : Bool}
    (h : look buffer = .drop rejected) :
    run look buffer = (run look (buffer.drop 1)).dropping rejected := by
  cases buffer with
  | nil =>
    rw [hlook.nil] at h
    cases h
  | cons x xs =>
    show scan look (xs.length + 1) (x :: xs) = _
    rw [(scan_round look xs.length _).2.1 _ h, scan_fuel hlook (by simp)]

theorem run_take (hlook : Lawful look) {buffer : List α} {size : Nat} {out : β}
    (h : look buffer = .take size out) :
    run look buffer = (run look (buffer.drop size)).taking out := by
  obtain ⟨hpos, hsize⟩ := hlook.take h
  unfold run
  obtain ⟨n, hn⟩ : ∃ n, buffer.length = n + 1 := ⟨buffer.length - 1, by omega⟩
  rw [hn, (scan_round look n buffer).2.2 _ _ h,
    scan_fuel hlook (by rw [List.length_drop]; omega)]
  rfl

/-- A buffer that is dropped from is not empty. -/
theorem length_pos_of_drop (hlook : Lawful look) {buffer : List α} {rejected : Bool}
    (h : look buffer = .drop rejected) : 0 < buffer.length := by
  rw [List.length_pos_iff]
  rintro rfl
  rw [hlook.nil] at h
  cases h

/-- Induction over the rounds of a run. -/
theorem run_induction (hlook : Lawful look) {P : List α → Prop}
    (hwait : ∀ buffer, look buffer = .wait → P buffer)
    (hdrop : ∀ buffer rejected, look buffer = .drop rejected → P (buffer.drop 1) → P buffer)
    (htake : ∀ buffer size out, look buffer = .take size out → P (buffer.drop size) → P buffer)
    (buffer : List α) : P buffer := by
  induction hn : buffer.length using Nat.strongRecOn generalizing buffer with
  | ind n ih =>
    cases h : look buffer with
    | wait => exact hwait buffer h
    | drop rejected =>
      have hpos := length_pos_of_drop hlook h
      exact hdrop buffer rejected h (ih _ (by rw [List.length_drop]; omega) _ rfl)
    | take size out =>
      obtain ⟨hpos, hsize⟩ := hlook.take h
      exact htake buffer size out h (ih _ (by rw [List.length_drop]; omega) _ rfl)

theorem look_rest (hlook : Lawful look) (buffer : List α) : look (run look buffer).rest = .wait := by
  induction buffer using run_induction hlook with
  | hwait buffer h =>
    rw [run_wait h]
    exact h
  | hdrop buffer rejected h ih =>
    rw [run_drop hlook h]
    exact ih
  | htake buffer size out h ih =>
    rw [run_take hlook h]
    exact ih

/-! ## What becomes of every symbol -/

/-- A stream divided into blocks, each after the noise before it, and the noise behind them. -/
structure Division (α : Type u) where
  parts : List (List α × List α)
  noise : List α

namespace Division

def blocks (d : Division α) : List (List α) := d.parts.map Prod.snd

def stream (d : Division α) : List α := d.parts.flatMap (fun p => p.1 ++ p.2) ++ d.noise

def dropped (d : Division α) : Nat := (d.parts.map fun p => p.1.length).sum + d.noise.length

theorem length_stream (d : Division α) :
    d.stream.length = (d.blocks.map List.length).sum + d.dropped := by
  obtain ⟨parts, noise⟩ := d
  simp only [stream, blocks, dropped, List.length_append]
  induction parts with
  | nil => simp
  | cons p parts ih =>
    simp only [List.flatMap_cons, List.length_append, List.map_cons, List.sum_cons] at ih ⊢
    omega

/-- One more symbol of noise at the front. -/
def behind (x : α) (d : Division α) : Division α :=
  match d.parts with
  | [] => ⟨[], x :: d.noise⟩
  | p :: parts => ⟨(x :: p.1, p.2) :: parts, d.noise⟩

theorem stream_behind (x : α) (d : Division α) : (d.behind x).stream = x :: d.stream := by
  obtain ⟨_ | ⟨p, parts⟩, noise⟩ := d <;> simp [behind, stream]

theorem blocks_behind (x : α) (d : Division α) : (d.behind x).blocks = d.blocks := by
  obtain ⟨_ | ⟨p, parts⟩, noise⟩ := d <;> simp [behind, blocks]

theorem dropped_behind (x : α) (d : Division α) : (d.behind x).dropped = d.dropped + 1 := by
  obtain ⟨_ | ⟨p, parts⟩, noise⟩ := d
  · simp [behind, dropped]
  · simp only [behind, dropped, List.map_cons, List.sum_cons, List.length_cons]
    omega

end Division

/-- Every symbol is taken, dropped or left, and `P` holds of every block that is taken. -/
theorem run_divides (hlook : Lawful look) {P : List α → β → Prop}
    (hP : ∀ buffer size out, look buffer = .take size out → P (buffer.take size) out)
    (buffer : List α) : ∃ d : Division α, buffer = d.stream ++ (run look buffer).rest ∧
      List.Forall₂ P d.blocks (run look buffer).outs ∧ (run look buffer).dropped = d.dropped := by
  induction buffer using run_induction hlook with
  | hwait buffer h =>
    rw [run_wait h]
    exact ⟨⟨[], []⟩, rfl, .nil, rfl⟩
  | hdrop buffer rejected h ih =>
    obtain ⟨d, hstream, hblocks, hdropped⟩ := ih
    have hpos := length_pos_of_drop hlook h
    obtain ⟨x, xs, rfl⟩ := List.exists_cons_of_length_pos hpos
    rw [run_drop hlook h]
    refine ⟨d.behind x, ?_, ?_, ?_⟩
    · rw [Division.stream_behind, List.cons_append]
      exact congrArg (x :: ·) hstream
    · rw [Division.blocks_behind]
      exact hblocks
    · rw [Division.dropped_behind, ← hdropped]
      rfl
  | htake buffer size out h ih =>
    obtain ⟨⟨parts, noise⟩, hstream, hblocks, hdropped⟩ := ih
    rw [run_take hlook h]
    refine ⟨⟨([], buffer.take size) :: parts, noise⟩, ?_, .cons (hP buffer size out h) hblocks, ?_⟩
    · have hsplit := List.take_append_drop size buffer
      rw [hstream] at hsplit
      simpa [Division.stream, Outcome.taking] using hsplit.symm
    · simpa [Division.dropped, Outcome.taking] using hdropped

/-! ## Pieces -/

/-- A decision does not change with what arrives later. -/
def Stable (look : List α → Look β) : Prop :=
  ∀ buffer more, look buffer ≠ .wait → look (buffer ++ more) = look buffer

theorem run_append (hlook : Lawful look) (hstable : Stable look) (buffer more : List α) :
    run look (buffer ++ more) =
      (run look buffer).followed (run look ((run look buffer).rest ++ more)) := by
  induction buffer using run_induction hlook with
  | hwait buffer h =>
    rw [run_wait h, Outcome.waiting_followed]
    rfl
  | hdrop buffer rejected h ih =>
    have hpos := length_pos_of_drop hlook h
    have happend : look (buffer ++ more) = .drop rejected := by
      rw [hstable buffer more (by simp [h]), h]
    rw [run_drop hlook h, run_drop hlook happend, List.drop_append_of_le_length (by omega), ih,
      Outcome.dropping_followed]
    rfl
  | htake buffer size out h ih =>
    obtain ⟨hpos, hsize⟩ := hlook.take h
    have happend : look (buffer ++ more) = .take size out := by
      rw [hstable buffer more (by simp [h]), h]
    rw [run_take hlook h, run_take hlook happend, List.drop_append_of_le_length hsize, ih]
    rfl

/-- The pieces one after the other. -/
def feeds (look : List α → Look β) (buffer : List α) : List (List α) → Outcome α β
  | [] => .waiting buffer
  | piece :: pieces =>
    (run look (buffer ++ piece)).followed (feeds look (run look (buffer ++ piece)).rest pieces)

theorem feeds_eq (hlook : Lawful look) (hstable : Stable look) {buffer : List α}
    (h : look buffer = .wait) (pieces : List (List α)) :
    feeds look buffer pieces = run look (buffer ++ pieces.flatten) := by
  induction pieces generalizing buffer with
  | nil => rw [feeds, List.flatten_nil, List.append_nil, run_wait h]
  | cons piece pieces ih =>
    rw [feeds, ih (look_rest hlook _), List.flatten_cons, ← List.append_assoc,
      ← run_append hlook hstable]

end Runs

end RcdServer.Lib.Scanner
