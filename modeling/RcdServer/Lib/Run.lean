import Mathlib.Data.List.Basic
import Mathlib.Data.List.Induction
import Mathlib.Logic.Relation

/-!
# Runs of a partial step function

A component is a step function that refuses disabled actions with `none`. A run
is a finite list of actions executed from left to right. The rules below turn
one-step preservation into statements about every state of every run, also for
runs all of whose steps meet a side condition.
-/
namespace RcdServer.Lib.Run

universe u

variable {S A : Type*} {step : S → A → Option S}

/-- The state after all actions, or `none` as soon as one of them is disabled. -/
def exec (step : S → A → Option S) (s : S) : List A → Option S
  | [] => some s
  | a :: as => (step s a).bind fun s' => exec step s' as

/-- Every step of the run meets `ok` in the state it is taken from. -/
def Meets (step : S → A → Option S) (ok : S → A → Prop) (s : S) : List A → Prop
  | [] => True
  | a :: as => ok s a ∧ ∀ s', step s a = some s' → Meets step ok s' as

theorem exec_nil {s s' : S} : exec step s [] = some s' ↔ s = s' := Option.some_inj

theorem exec_cons {s s' : S} {a : A} {as : List A} :
    exec step s (a :: as) = some s' ↔ ∃ mid, step s a = some mid ∧ exec step mid as = some s' :=
  Option.bind_eq_some_iff

theorem meets_cons {ok : S → A → Prop} {s : S} {a : A} {as : List A} :
    Meets step ok s (a :: as) ↔ ok s a ∧ ∀ s', step s a = some s' → Meets step ok s' as := Iff.rfl

theorem exec_append {s s' : S} {as bs : List A} :
    exec step s (as ++ bs) = some s' ↔
      ∃ mid, exec step s as = some mid ∧ exec step mid bs = some s' := by
  induction as generalizing s with
  | nil => simp [exec_nil]
  | cons a as ih =>
    rw [List.cons_append, exec_cons]
    constructor
    · rintro ⟨m, hm, h⟩
      obtain ⟨n, hn, h⟩ := ih.mp h
      exact ⟨n, exec_cons.mpr ⟨m, hm, hn⟩, h⟩
    · rintro ⟨n, hn, h⟩
      obtain ⟨m, hm, hn⟩ := exec_cons.mp hn
      exact ⟨m, hm, ih.mpr ⟨n, hn, h⟩⟩

/-- What every step preserves, every run preserves. -/
theorem exec_invariant (inv : S → Prop)
    (hstep : ∀ s a s', inv s → step s a = some s' → inv s')
    {s s' : S} {as : List A} (h0 : inv s) (h : exec step s as = some s') : inv s' := by
  induction as generalizing s with
  | nil =>
    obtain rfl : s = s' := exec_nil.mp h
    exact h0
  | cons a as ih =>
    obtain ⟨m, hm, h⟩ := exec_cons.mp h
    exact ih (hstep _ _ _ h0 hm) h

/-- The same for what depends on the actions so far. -/
theorem exec_history (inv : List A → S → Prop) {s₀ : S} (h0 : inv [] s₀)
    (hstep : ∀ as a s s', exec step s₀ as = some s → inv as s → step s a = some s' →
      inv (as ++ [a]) s')
    {as : List A} {s : S} (h : exec step s₀ as = some s) : inv as s := by
  induction as using List.reverseRecOn generalizing s with
  | nil =>
    obtain rfl : s₀ = s := exec_nil.mp h
    exact h0
  | append_singleton as a ih =>
    obtain ⟨mid, hmid, hlast⟩ := exec_append.mp h
    obtain ⟨s', hs', hend⟩ := exec_cons.mp hlast
    obtain rfl : s' = s := exec_nil.mp hend
    exact hstep as a mid s' hmid (ih hmid) hs'

/-- What every step that meets `ok` preserves, every run of such steps preserves. -/
theorem meets_invariant (ok : S → A → Prop) (inv : S → Prop)
    (hstep : ∀ s a s', inv s → ok s a → step s a = some s' → inv s')
    {s s' : S} {as : List A} (h0 : inv s) (hok : Meets step ok s as)
    (h : exec step s as = some s') : inv s' := by
  induction as generalizing s with
  | nil =>
    obtain rfl : s = s' := exec_nil.mp h
    exact h0
  | cons a as ih =>
    obtain ⟨m, hm, h⟩ := exec_cons.mp h
    exact ih (hstep _ _ _ h0 hok.1 hm) (hok.2 m hm) h

theorem meets_of_forall {ok : A → Prop} {s : S} {as : List A} (h : ∀ a ∈ as, ok a) :
    Meets step (fun _ => ok) s as := by
  induction as generalizing s with
  | nil => exact trivial
  | cons a as ih =>
    exact ⟨h a List.mem_cons_self, fun _ _ => ih fun a' ha' => h a' (List.mem_cons_of_mem _ ha')⟩

/-- A condition that is only asked for where `p` holds. -/
theorem meets_of_imp {p : Prop} {ok : S → A → Prop} {s : S} {as : List A}
    (h : p → Meets step ok s as) : Meets step (fun s a => p → ok s a) s as := by
  induction as generalizing s with
  | nil => exact trivial
  | cons a as ih => exact ⟨fun hp => (h hp).1, fun s' hs' => ih fun hp => (h hp).2 s' hs'⟩

/-- `Meets` for a condition that is computed. -/
def meetsAll (step : S → A → Option S) (ok : S → A → Bool) (s : S) : List A → Bool
  | [] => true
  | a :: as => ok s a && (step s a).all fun s' => meetsAll step ok s' as

theorem meets_of_meetsAll {ok : S → A → Prop} {check : S → A → Bool}
    (hcheck : ∀ s a, check s a = true → ok s a) {s : S} {as : List A}
    (h : meetsAll step check s as = true) : Meets step ok s as := by
  induction as generalizing s with
  | nil => exact trivial
  | cons a as ih =>
    obtain ⟨hfirst, hrest⟩ := Bool.and_eq_true_iff.mp h
    refine ⟨hcheck s a hfirst, fun s' hs' => ih ?_⟩
    rw [hs'] at hrest
    exact hrest

theorem meets_append {ok : S → A → Prop} {s : S} {as bs : List A} :
    Meets step ok s (as ++ bs) ↔
      Meets step ok s as ∧ ∀ mid, exec step s as = some mid → Meets step ok mid bs := by
  induction as generalizing s with
  | nil =>
    constructor
    · intro h
      refine ⟨trivial, fun mid hmid => ?_⟩
      rw [← exec_nil.mp hmid]
      exact h
    · exact fun h => h.2 s rfl
  | cons a as ih =>
    rw [List.cons_append, meets_cons, meets_cons, and_assoc]
    refine and_congr_right fun _ => ?_
    constructor
    · intro h
      refine ⟨fun s' hs' => (ih.mp (h s' hs')).1, ?_⟩
      intro mid hmid
      obtain ⟨s', hs', hmid⟩ := exec_cons.mp hmid
      exact (ih.mp (h s' hs')).2 mid hmid
    · intro h s' hs'
      exact ih.mpr ⟨h.1 s' hs', fun mid hmid => h.2 mid (exec_cons.mpr ⟨s', hs', hmid⟩)⟩

/-- Two conditions that agree on the steps taken from invariant states agree on runs. -/
theorem meets_congr (p q : S → A → Prop) (inv : S → Prop)
    (hstep : ∀ s a s', inv s → step s a = some s' → inv s' ∧ (p s a ↔ q s a))
    {s s' : S} {as : List A} (h0 : inv s) (h : exec step s as = some s') :
    Meets step p s as ↔ Meets step q s as := by
  induction as generalizing s with
  | nil => exact Iff.rfl
  | cons a as ih =>
    obtain ⟨m, hm, h⟩ := exec_cons.mp h
    obtain ⟨hinv, hpq⟩ := hstep s a m h0 hm
    have hrest := ih hinv h
    have htail : ∀ r : S → A → Prop,
        (∀ s', step s a = some s' → Meets step r s' as) ↔ Meets step r m as := by
      intro r
      constructor
      · intro hr
        exact hr m hm
      · intro hr s' hs'
        obtain rfl : m = s' := Option.some.inj (hm.symm.trans hs')
        exact hr
    rw [meets_cons, meets_cons, htail, htail, hpq, hrest]

theorem bind_eq_ok_iff {α β : Type u} {ε : Type*} {x : Except ε α} {f : α → Except ε β} {b : β} :
    x >>= f = .ok b ↔ ∃ a, x = .ok a ∧ f a = .ok b := by
  cases x with
  | error e =>
    constructor
    · intro h
      cases h
    · rintro ⟨_, ha, -⟩
      cases ha
  | ok a =>
    constructor
    · exact fun h => ⟨a, rfl, h⟩
    · rintro ⟨a', ha, h⟩
      rw [Except.ok.inj ha]
      exact h

theorem ok_bind {α β : Type u} {ε : Type*} (a : α) (f : α → Except ε β) :
    (.ok a : Except ε α) >>= f = f a := rfl

/-- The errors are known, and what is returned has a property. -/
def Ends {ε α : Type*} (error : ε → Prop) (returns : α → Prop) : Except ε α → Prop
  | .error e => error e
  | .ok a => returns a

theorem Ends.imp {ε α : Type*} {error : ε → Prop} {P Q : α → Prop} {x : Except ε α}
    (hx : Ends error P x) (h : ∀ a, P a → Q a) : Ends error Q x := by
  cases x with
  | error e => exact hx
  | ok a => exact h a hx

theorem Ends.bind {α β : Type u} {ε : Type*} {error : ε → Prop} {P : α → Prop} {Q : β → Prop}
    {x : Except ε α} {f : α → Except ε β} (hx : Ends error P x)
    (hf : ∀ a, P a → Ends error Q (f a)) : Ends error Q (x >>= f) := by
  cases x with
  | error e => exact hx
  | ok a => exact hf a hx

/-- A loop that stops at the first error: what every round makes of the elements so far, the whole
loop makes of the list. -/
theorem foldlM_history {σ α ε : Type*} {f : σ → α → Except ε σ} (inv : List α → σ → Prop)
    (hround : ∀ done x s s', inv done s → f s x = .ok s' → inv (done ++ [x]) s')
    {done l : List α} {s s' : σ} (h0 : inv done s) (h : l.foldlM f s = .ok s') :
    inv (done ++ l) s' := by
  induction l generalizing done s with
  | nil =>
    obtain rfl : s = s' := Except.ok.inj h
    rw [List.append_nil]
    exact h0
  | cons x l ih =>
    rw [List.foldlM_cons] at h
    obtain ⟨t, hx, hl⟩ := bind_eq_ok_iff.mp h
    have := ih (hround done x s t h0 hx) hl
    rwa [List.append_assoc] at this

theorem foldlM_history_nil {σ α ε : Type*} {f : σ → α → Except ε σ} (inv : List α → σ → Prop)
    (hround : ∀ done x s s', inv done s → f s x = .ok s' → inv (done ++ [x]) s')
    {l : List α} {s s' : σ} (h0 : inv [] s) (h : l.foldlM f s = .ok s') : inv l s' :=
  foldlM_history inv hround h0 h

/-- A loop all of whose rounds can be followed can be followed. -/
theorem foldlM_simulation {σ τ α ε ε' : Type*} {f : σ → α → Except ε σ} {g : τ → α → Except ε' τ}
    (R : σ → τ → Prop)
    (hround : ∀ x s t s', R s t → f s x = .ok s' → ∃ t', g t x = .ok t' ∧ R s' t')
    {l : List α} {s s' : σ} {t : τ} (hR : R s t) (h : l.foldlM f s = .ok s') :
    ∃ t', l.foldlM g t = .ok t' ∧ R s' t' := by
  induction l generalizing s t with
  | nil =>
    obtain rfl : s = s' := Except.ok.inj h
    exact ⟨t, rfl, hR⟩
  | cons x l ih =>
    rw [List.foldlM_cons] at h
    obtain ⟨m, hx, hl⟩ := bind_eq_ok_iff.mp h
    obtain ⟨n, hn, hmn⟩ := hround x s t m hR hx
    obtain ⟨t', ht', hend⟩ := ih hmn hl
    refine ⟨t', ?_, hend⟩
    rw [List.foldlM_cons]
    exact bind_eq_ok_iff.mpr ⟨n, hn, ht'⟩

/-- A loop that collects results has one for each element. -/
theorem forall₂_of_mapM {α β ε : Type*} {f : α → Except ε β} {l : List α} {r : List β}
    (h : l.mapM f = .ok r) : List.Forall₂ (fun a b => f a = .ok b) l r := by
  induction l generalizing r with
  | nil =>
    obtain rfl : [] = r := Except.ok.inj h
    exact .nil
  | cons a l ih =>
    rw [List.mapM_cons] at h
    obtain ⟨b, ha, h⟩ := bind_eq_ok_iff.mp h
    obtain ⟨bs, hl, h⟩ := bind_eq_ok_iff.mp h
    obtain rfl : b :: bs = r := Except.ok.inj h
    exact .cons ha (ih hl)

/-- What every move preserves, every sequence of moves preserves. -/
theorem moves_invariant {R : S → S → Prop} (inv : S → Prop) (hmove : ∀ s t, R s t → inv s → inv t)
    {s t : S} (h : Relation.ReflTransGen R s t) (h0 : inv s) : inv t := by
  induction h with
  | refl => exact h0
  | tail _ hst ih => exact hmove _ _ hst ih

end RcdServer.Lib.Run
