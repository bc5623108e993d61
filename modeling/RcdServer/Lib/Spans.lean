import Mathlib.Data.List.Basic
import Mathlib.Order.Basic

/-!
# Unbroken spans of observations

A log holds ticks, the latest first. An observation lasts since the first tick of the latest
unbroken run of ticks that make it, which `runStart` computes as a stamp carried from tick to tick
would. Where times do not decrease, the run is the longest span that can be given for it.
-/
namespace RcdServer.Lib.Spans

variable {T O : Type*} [DecidableEq O] {obs : T → Option O} {o : O}

/-- The first tick of the latest unbroken run of observations `o`. -/
def runStart (obs : T → Option O) (o : O) : List T → Option T
  | [] => none
  | t :: older => if obs t = some o then some ((runStart obs o older).getD t) else none

/-- The latest ticks all observe `o`, back to `first`. -/
def Unbroken (obs : T → Option O) (o : O) (first : T) (log : List T) : Prop :=
  ∃ recent older, log = recent ++ first :: older ∧ ∀ t ∈ recent ++ [first], obs t = some o

theorem unbroken_runStart {log : List T} {start : T} (h : runStart obs o log = some start) :
    Unbroken obs o start log := by
  induction log generalizing start with
  | nil => cases h
  | cons t older ih =>
    rw [runStart] at h
    split at h
    · rename_i ht
      cases hold : runStart obs o older with
      | none =>
        rw [hold, Option.getD_none] at h
        obtain rfl : t = start := Option.some.inj h
        exact ⟨[], older, rfl, by simpa using ht⟩
      | some first =>
        rw [hold, Option.getD_some] at h
        obtain rfl : first = start := Option.some.inj h
        obtain ⟨recent, rest, rfl, hall⟩ := ih hold
        refine ⟨t :: recent, rest, rfl, ?_⟩
        intro t' ht'
        rcases List.mem_cons.mp ht' with rfl | ht'
        · exact ht
        · exact hall t' ht'
    · cases h

/-- Only one observation is under way. -/
theorem runStart_other {log : List T} {start : T} {o' : O} (h : runStart obs o log = some start)
    (hne : o' ≠ o) : runStart obs o' log = none := by
  cases log with
  | nil => cases h
  | cons t older =>
    rw [runStart] at h ⊢
    split at h
    · rename_i ht
      rw [if_neg]
      intro ht'
      exact hne (Option.some.inj (ht'.symm.trans ht))
    · cases h

/-- No span starts before the run does. -/
theorem runStart_of_unbroken {log : List T} {first : T} (h : Unbroken obs o first log) :
    ∃ start, runStart obs o log = some start ∧
      (start = first ∨ ∃ recent older, log = recent ++ first :: older ∧ start ∈ older) := by
  obtain ⟨recent, older, rfl, hall⟩ := h
  induction recent with
  | nil =>
    have hfirst : obs first = some o := hall first (by simp)
    refine ⟨(runStart obs o older).getD first, by simp [runStart, hfirst], ?_⟩
    cases hold : runStart obs o older with
    | none => exact .inl rfl
    | some start =>
      obtain ⟨recent, rest, rfl, -⟩ := unbroken_runStart hold
      exact .inr ⟨[], _, rfl, by simp⟩
  | cons t recent ih =>
    have ht : obs t = some o := hall t (by simp)
    obtain ⟨start, hstart, hwhere⟩ := ih fun t' ht' => hall t' (List.mem_cons_of_mem t ht')
    refine ⟨start, by simp [runStart, ht, hstart], ?_⟩
    rcases hwhere with heq | ⟨recent', older', hsplit, hmem⟩
    · exact .inl heq
    · exact .inr ⟨t :: recent', older', by rw [List.cons_append, hsplit, List.cons_append], hmem⟩

variable {τ : Type*} [Preorder τ]

/-- Where times do not decrease, the run starts no later than any span. -/
theorem runStart_le (time : T → τ) {log : List T} (hsorted : log.Pairwise fun new old => time old ≤ time new)
    {first : T} (h : Unbroken obs o first log) :
    ∃ start, runStart obs o log = some start ∧ time start ≤ time first := by
  obtain ⟨start, hstart, rfl | ⟨recent, older, rfl, hmem⟩⟩ := runStart_of_unbroken h
  · exact ⟨start, hstart, le_refl _⟩
  · refine ⟨start, hstart, ?_⟩
    have htail := (List.pairwise_append.mp hsorted).2.1
    exact (List.pairwise_cons.mp htail).1 start hmem

end RcdServer.Lib.Spans
