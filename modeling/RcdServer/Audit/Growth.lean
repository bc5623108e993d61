import RcdServer.Audit.Service

/-!
# Entries only grow

What a put, a failed save, a mark and a store do to the entries of the service: an entry keeps its
progress and its newest snapshot whatever copy is put over it, and its mark of a gap unless an
unmarked copy is put over a marked trace. An entry that changes is dirty under a new revision.
-/
namespace RcdServer.Audit

open Lib Routes

/-! ## One entry -/

/-- Queued, waiting and finished commands in their order. -/
def progress : CommandState → Nat
  | .queued => 0
  | .waiting => 1
  | _ => 2

theorem progress_unfinished {state : CommandState} : unfinished state = true ↔ progress state < 2 := by
  cases state <;> decide

theorem unfinished_of_progress_le {old new : CommandState} (h : progress old ≤ progress new)
    (hold : unfinished old = false) : unfinished new = false := by
  have hfinished : ¬ progress old < 2 := fun hlt => by
    rw [progress_unfinished.mpr hlt] at hold
    cases hold
  by_contra hnew
  have := progress_unfinished.mp (Bool.not_eq_false _ ▸ hnew)
  omega

theorem not_queued_of_progress_le {old new : CommandState} (h : progress old ≤ progress new)
    (hold : old = .waiting) : new ≠ .queued := by
  intro hnew
  rw [hold, hnew] at h
  exact absurd h (by decide)

def Entry.snapshot (e : Entry) : Option TrackedCommand := e.trace.bind (·.snapshot)

def Entry.marked (e : Entry) : Bool := e.trace.any (·.historyGap)

/-- An entry and a later one under the same id, apart from the mark. -/
structure Entry.Newer (e e' : Entry) : Prop where
  progress : progress e.command.state ≤ progress e'.command.state
  snapshot : ∀ v, e.snapshot = some v → ∃ v', e'.snapshot = some v' ∧ v.revision ≤ v'.revision

theorem Entry.Newer.refl (e : Entry) : e.Newer e := ⟨Nat.le_refl _, fun v hv => ⟨v, hv, Nat.le_refl _⟩⟩

theorem Entry.Newer.trans {e₁ e₂ e₃ : Entry} (h₁ : e₁.Newer e₂) (h₂ : e₂.Newer e₃) :
    e₁.Newer e₃ := by
  refine ⟨h₁.progress.trans h₂.progress, fun v hv => ?_⟩
  obtain ⟨v₂, hv₂, hle₂⟩ := h₁.snapshot v hv
  obtain ⟨v₃, hv₃, hle₃⟩ := h₂.snapshot v₂ hv₂
  exact ⟨v₃, hv₃, hle₂.trans hle₃⟩

/-- A later entry that keeps the mark as well. -/
structure Entry.Grows (e e' : Entry) : Prop extends Entry.Newer e e' where
  marked : e.marked = true → e'.marked = true

theorem Entry.Grows.refl (e : Entry) : e.Grows e := ⟨.refl e, fun h => h⟩

theorem Entry.Grows.trans {e₁ e₂ e₃ : Entry} (h₁ : e₁.Grows e₂) (h₂ : e₂.Grows e₃) : e₁.Grows e₃ :=
  ⟨h₁.toNewer.trans h₂.toNewer, fun h => h₂.marked (h₁.marked h)⟩

/-! ## A put over an entry -/

theorem mergeCommand_progress {o : Entry} {c : PendingCommand} (hid : o.command.id ≠ "") :
    progress o.command.state ≤ progress (mergeCommand (some o) c).state := by
  unfold mergeCommand
  dsimp only
  split
  · split <;> rfl
  · rename_i hguard
    split
    · rfl
    · rename_i hwaiting
      by_contra hless
      apply hguard
      refine ⟨hid, ?_, ?_⟩
      · cases ho : o.command.state <;> cases hc : c.state <;>
          simp_all [progress, unfinished]
      · cases ho : o.command.state <;> cases hc : c.state <;>
          simp_all [progress, unfinished]

theorem mergeTrace_snapshot {o : Entry} {v : TrackedCommand} (trace : Option CommandTrace)
    (h : o.snapshot = some v) : ∃ t v', mergeTrace (some o) trace = some t ∧
      t.snapshot = some v' ∧ v.revision ≤ v'.revision := by
  obtain ⟨t₀, ht₀, hv⟩ := Option.bind_eq_some_iff.mp h
  unfold mergeTrace
  cases trace with
  | none => exact ⟨t₀, v, ht₀, hv, Nat.le_refl _⟩
  | some t =>
    simp only [Option.bind_some, ht₀]
    split
    · exact ⟨t₀, v, rfl, hv, Nat.le_refl _⟩
    · rename_i hcurrent
      cases hn : t.snapshot with
      | none =>
        exact absurd (by simp [outdated, hv, hn]) hcurrent
      | some n =>
        refine ⟨t, n, rfl, hn, ?_⟩
        simpa [outdated, hv, hn] using hcurrent

theorem mergeCommand_choice (old : Option Entry) (c : PendingCommand) :
    mergeCommand old c = c ∨ ∃ o, old = some o ∧ mergeCommand old c = o.command := by
  cases old with
  | none => exact .inl rfl
  | some o =>
    unfold mergeCommand
    dsimp only
    split
    · exact .inr ⟨o, rfl, ite_self _⟩
    · split
      · exact .inr ⟨o, rfl, rfl⟩
      · exact .inl rfl

theorem mergeTrace_choice {old : Option Entry} {trace : Option CommandTrace} {t : CommandTrace}
    (h : mergeTrace old trace = some t) : trace = some t ∨ ∃ o, old = some o ∧ o.trace = some t := by
  have hold : old.bind Entry.trace = some t → ∃ o, old = some o ∧ o.trace = some t :=
    Option.bind_eq_some_iff.mp
  unfold mergeTrace at h
  cases trace with
  | none => exact .inr (hold h)
  | some n =>
    cases ho : old.bind Entry.trace with
    | none =>
      simp only [ho] at h
      exact .inl h
    | some o =>
      simp only [ho] at h hold
      split at h
      · exact .inr (hold h)
      · exact .inl h

namespace Service

variable {s s' : Service} {detail : CommandDetail}

/-- Entries are kept under the ids of their commands, which are not empty. -/
def Keyed (s : Service) : Prop :=
  ∀ id e, s.entries.lookup id = some e → e.command.id = id ∧ id ≠ ""

theorem merge_id (hkeyed : s.Keyed) : (s.merge detail).command.id = detail.command.id := by
  rcases mergeCommand_choice (s.entries.lookup detail.command.id) detail.command with h | ⟨o, ho, h⟩
  · exact congrArg PendingCommand.id h
  · exact (congrArg PendingCommand.id h).trans (hkeyed _ o ho).1

/-- The copy has the mark that the entry has, or it is not the one that is kept. -/
def KeepsMark (s : Service) (detail : CommandDetail) : Prop :=
  ∀ o t copy, s.entries.lookup detail.command.id = some o → o.trace = some t →
    t.historyGap = true → detail.trace = some copy →
    copy.historyGap = true ∨ s.error.isSome = true ∨ outdated t copy = true

theorem merge_newer {o : Entry} (ho : s.entries.lookup detail.command.id = some o)
    (hid : o.command.id ≠ "") {revision : Nat} {dirty : Bool} :
    o.Newer ⟨s.merge detail, revision, dirty⟩ := by
  have hmerge : s.merge detail =
      { command := mergeCommand (some o) detail.command
        trace := if s.error.isSome then (mergeTrace (some o) detail.trace).map CommandTrace.markGap
          else mergeTrace (some o) detail.trace } := by
    rw [merge, ho]
  constructor
  · rw [hmerge]
    exact mergeCommand_progress hid
  · intro v hv
    obtain ⟨t, v', ht, hv', hle⟩ := mergeTrace_snapshot detail.trace hv
    refine ⟨v', ?_, hle⟩
    rw [hmerge]
    show Option.bind (if _ then _ else _) _ = _
    split
    · simp [ht, CommandTrace.markGap, hv']
    · simp [ht, hv']

theorem merge_marked {o : Entry} (ho : s.entries.lookup detail.command.id = some o)
    (hkeeps : s.KeepsMark detail) (hmarked : o.marked = true) {revision : Nat} {dirty : Bool} :
    (⟨s.merge detail, revision, dirty⟩ : Entry).marked = true := by
  obtain ⟨t, ht, hgap⟩ := (Option.any_eq_true _ _).mp hmarked
  have hkept : ∃ t', mergeTrace (some o) detail.trace = some t' ∧
      (t'.historyGap = true ∨ s.error.isSome = true) := by
    unfold mergeTrace
    cases hcopy : detail.trace with
    | none => exact ⟨t, ht, .inl hgap⟩
    | some copy =>
      simp only [Option.bind_some, ht]
      split
      · exact ⟨t, rfl, .inl hgap⟩
      · rename_i hcurrent
        refine ⟨copy, rfl, ?_⟩
        rcases hkeeps o t copy ho ht hgap hcopy with h | h | h
        · exact .inl h
        · exact .inr h
        · exact absurd h hcurrent
  obtain ⟨t', ht', hkept⟩ := hkept
  show Option.any _ (s.merge detail).trace = true
  rw [merge, ho]
  dsimp only
  rw [ht']
  split
  · rfl
  · rename_i hnone
    rcases hkept with h | h
    · exact h
    · exact absurd h hnone

/-! ## The service -/

/-- What changes is dirty, under a new revision. -/
structure Moved (s s' : Service) : Prop where
  revision : s.revision ≤ s'.revision
  entries : ∀ id e, s'.entries.lookup id = some e → s.entries.lookup id = some e ∨
    e.dirty = true ∧ s.revision < e.revision ∧ e.revision ≤ s'.revision

theorem Moved.refl (s : Service) : Moved s s := ⟨Nat.le_refl _, fun _ _ h => .inl h⟩

theorem Moved.trans {s₁ s₂ s₃ : Service} (h₁ : Moved s₁ s₂) (h₂ : Moved s₂ s₃) : Moved s₁ s₃ := by
  have hle₁ := h₁.revision
  have hle₂ := h₂.revision
  refine ⟨hle₁.trans hle₂, fun id e he => ?_⟩
  rcases h₂.entries id e he with hsame | ⟨hdirty, hlt, hle⟩
  · rcases h₁.entries id e hsame with hsame | ⟨hdirty, hlt, hle⟩
    · exact .inl hsame
    · exact .inr ⟨hdirty, hlt, by omega⟩
  · exact .inr ⟨hdirty, by omega, hle⟩

theorem lookup_change {id id' : String} :
    (s.change id detail).entries.lookup id' =
      if id' = id then some ⟨detail, s.revision + 1, true⟩ else s.entries.lookup id' :=
  Map.lookup_insert_eq

theorem change_moved (id : String) : Moved s (s.change id detail) := by
  refine ⟨Nat.le_succ _, fun id' e he => ?_⟩
  rw [lookup_change] at he
  split at he
  · cases he
    exact .inr ⟨rfl, Nat.lt_succ_self _, Nat.le_refl _⟩
  · exact .inl he

/-- Every entry stays, and grows. -/
def Grows (s s' : Service) : Prop :=
  ∀ id e, s.entries.lookup id = some e → ∃ e', s'.entries.lookup id = some e' ∧ e.Grows e'

theorem Grows.refl (s : Service) : Grows s s := fun _ e he => ⟨e, he, .refl e⟩

theorem Grows.trans {s₁ s₂ s₃ : Service} (h₁ : Grows s₁ s₂) (h₂ : Grows s₂ s₃) : Grows s₁ s₃ := by
  intro id e he
  obtain ⟨e₂, he₂, hgrows₂⟩ := h₁ id e he
  obtain ⟨e₃, he₃, hgrows₃⟩ := h₂ id e₂ he₂
  exact ⟨e₃, he₃, hgrows₂.trans hgrows₃⟩

theorem change_grows {id : String} {o : Entry} (ho : s.entries.lookup id = some o)
    (hgrows : o.Grows ⟨detail, s.revision + 1, true⟩) : Grows s (s.change id detail) := by
  intro id' e he
  rw [lookup_change]
  split
  · rename_i heq
    obtain rfl : o = e := Option.some.inj (ho.symm.trans (heq ▸ he))
    exact ⟨_, rfl, hgrows⟩
  · exact ⟨e, he, .refl e⟩

/-- Every entry has the property, with its id. -/
def All (P : String → CommandDetail → Prop) (s : Service) : Prop :=
  ∀ id e, s.entries.lookup id = some e → P id e.detail

theorem change_all {P : String → CommandDetail → Prop} (hall : s.All P) {id : String}
    (hdetail : P id detail) : (s.change id detail).All P := by
  intro id' e he
  rw [lookup_change] at he
  split at he
  · rename_i heq
    cases he
    exact heq ▸ hdetail
  · exact hall id' e he

/-- A property of details that a mark keeps. -/
def Unmarking (P : String → CommandDetail → Prop) : Prop :=
  ∀ id d, P id d → P id { d with trace := d.trace.map CommandTrace.markGap }

/-! ## Marks -/

theorem marked_grows (e : Entry) (revision : Nat) (dirty : Bool) :
    e.Grows ⟨{ e.detail with trace := e.trace.map CommandTrace.markGap }, revision, dirty⟩ := by
  refine ⟨⟨Nat.le_refl _, fun v hv => ?_⟩, fun hmarked => ?_⟩
  · obtain ⟨t, ht, hv⟩ := Option.bind_eq_some_iff.mp hv
    refine ⟨v, ?_, Nat.le_refl _⟩
    show Option.bind (Option.map _ e.trace) _ = _
    simp [ht, CommandTrace.markGap, hv]
  · obtain ⟨t, ht, -⟩ := (Option.any_eq_true _ _).mp hmarked
    show Option.any _ (Option.map _ e.trace) = true
    simp [ht, CommandTrace.markGap]

/-- The steps of failed saves and of marks. -/
inductive Mark (s : Service) : Service → Prop
  | error (error : Option String) : Mark s { s with error := error }
  | entry {id : String} {e : Entry} (he : s.entries.lookup id = some e) :
    Mark s (s.change id { e.detail with trace := e.trace.map CommandTrace.markGap })

abbrev Marks : Service → Service → Prop := Relation.ReflTransGen Mark

theorem marks_foldl {α : Type} {f : Service → α → Service} (hf : ∀ s x, Marks s (f s x))
    (xs : List α) : Marks s (xs.foldl f s) := by
  induction xs generalizing s with
  | nil => exact .refl
  | cons x xs ih => exact (hf s x).trans ih

theorem failed_marks (s : Service) (id error : String) : Marks s (s.failed id error) := by
  have herror : Marks s { s with error := some error } := .single (.error _)
  unfold failed
  dsimp only
  cases he : s.entries.lookup id with
  | none => exact herror
  | some e => exact herror.tail (.entry he)

theorem markHistoryGap_marks (s : Service) (source gateway : String) :
    Marks s (s.markHistoryGap source gateway) := by
  refine marks_foldl (fun s id => ?_) _
  unfold markEntry
  cases he : s.entries.lookup id with
  | none => exact .refl
  | some e =>
    dsimp only
    cases ht : e.trace with
    | none => exact .refl
    | some t =>
      dsimp only
      split
      · exact .refl
      · have hmark := Mark.entry he
        rw [ht] at hmark
        exact .single hmark

theorem Marks.moved (h : Marks s s') : Moved s s' := by
  induction h with
  | refl => exact .refl s
  | tail _ hmark ih =>
    refine ih.trans ?_
    cases hmark with
    | error => exact ⟨Nat.le_refl _, fun _ _ he => .inl he⟩
    | entry he => exact change_moved _

theorem Marks.grows (h : Marks s s') : Grows s s' := by
  induction h with
  | refl => exact .refl s
  | tail _ hmark ih =>
    refine ih.trans ?_
    cases hmark with
    | error => exact fun _ e he => ⟨e, he, .refl e⟩
    | entry he => exact change_grows he (marked_grows _ _ _)

theorem Marks.all {P : String → CommandDetail → Prop} (hP : Unmarking P) (h : Marks s s')
    (hall : s.All P) : s'.All P := by
  induction h with
  | refl => exact hall
  | tail _ hmark ih =>
    cases hmark with
    | error => exact ih
    | entry he => exact change_all ih (hP _ _ (ih _ _ he))

/-! ## Puts -/

theorem erase_moved (id : String) : Moved s { s with entries := s.entries.erase id } := by
  refine ⟨Nat.le_refl _, fun id' e he => .inl ?_⟩
  rw [Map.lookup_erase_eq] at he
  split at he
  · cases he
  · exact he

/-- A put stores its copy, perhaps after an eviction, or refuses it. -/
theorem put_cases {victim : String} (h : s.put detail victim = some s') :
    (∃ gap, s' = { s with gap := true, error := some gap }) ∨ s' = s.store detail ∨
      detail.command.id ∉ s.entries ∧
        ∃ gap, s' = { s with gap := gap, entries := s.entries.erase victim }.store detail := by
  unfold put at h
  split at h
  · rename_i hfull
    split at h
    · cases h
      exact .inl ⟨_, rfl⟩
    split at h
    · cases h
      exact .inr (.inr ⟨hfull.1, _, rfl⟩)
    · cases h
  · cases h
    exact .inr (.inl rfl)

theorem put_moved {victim : String} (h : s.put detail victim = some s') : Moved s s' := by
  rcases put_cases h with ⟨error, rfl⟩ | rfl | ⟨-, gap, rfl⟩
  · exact ⟨Nat.le_refl _, fun _ _ he => .inl he⟩
  · exact change_moved _
  · have herase := erase_moved (s := s) victim
    have hevicted : Moved s { s with gap := gap, entries := s.entries.erase victim } :=
      ⟨herase.revision, herase.entries⟩
    exact hevicted.trans (change_moved _)

/-- A property that a detail keeps when it is merged with one of the same id. -/
def Merging (P : String → CommandDetail → Prop) : Prop :=
  ∀ (s : Service) (d : CommandDetail), s.All P → P d.command.id d →
    P (s.merge d).command.id (s.merge d)

theorem put_all {P : String → CommandDetail → Prop} (hP : Merging P) (hall : s.All P)
    (hdetail : P detail.command.id detail) {victim : String}
    (h : s.put detail victim = some s') : s'.All P := by
  rcases put_cases h with ⟨error, rfl⟩ | rfl | ⟨-, gap, rfl⟩
  · exact hall
  · exact change_all hall (hP s detail hall hdetail)
  · have hevicted : All P { s with gap := gap, entries := s.entries.erase victim } := by
      intro id e he
      rw [Map.lookup_erase_eq] at he
      split at he
      · cases he
      · exact hall id e he
    exact change_all hevicted (hP _ detail hevicted hdetail)

/-- An entry that is not evicted grows. -/
theorem put_newer (hkeyed : s.Keyed) {victim : String} (h : s.put detail victim = some s')
    {id : String} {e e' : Entry} (he : s.entries.lookup id = some e)
    (he' : s'.entries.lookup id = some e') :
    e.Newer e' ∧ (s.KeepsMark detail → e.marked = true → e'.marked = true) := by
  have hsame : ∀ {e'}, s.entries.lookup id = some e' →
      e.Newer e' ∧ (s.KeepsMark detail → e.marked = true → e'.marked = true) := by
    intro e' he'
    obtain rfl : e = e' := Option.some.inj (he.symm.trans he')
    exact ⟨.refl e, fun _ hmarked => hmarked⟩
  rcases put_cases h with ⟨error, rfl⟩ | rfl | ⟨hnew, gap, rfl⟩
  · exact hsame he'
  · rw [store, lookup_change, merge_id hkeyed] at he'
    split at he'
    · rename_i heq
      cases he'
      rw [heq] at he
      have hnamed := hkeyed _ e he
      exact ⟨merge_newer he (by rw [hnamed.1]; exact hnamed.2),
        fun hkeeps hmarked => merge_marked he hkeeps hmarked⟩
    · exact hsame he'
  · have hevicted : ∀ id e, (s.entries.erase victim).lookup id = some e →
        s.entries.lookup id = some e := by
      intro id e he
      rw [Map.lookup_erase_eq] at he
      split at he
      · cases he
      · exact he
    have hkeyed' : Keyed { s with gap := gap, entries := s.entries.erase victim } :=
      fun id e he => hkeyed id e (hevicted id e he)
    rw [store, lookup_change, merge_id hkeyed'] at he'
    split at he'
    · rename_i heq
      rw [heq] at he
      exact absurd (Map.mem_iff.mpr ⟨e, he⟩) hnew
    · exact hsame (hevicted id e' he')

/-! ## Stores -/

theorem markStored_lookup {id id' : String} {taken : Entry} :
    (s.markStored id taken).entries.lookup id' = (s.entries.lookup id').map fun e =>
      if id' = id ∧ e.revision = taken.revision then { e with dirty := false } else e := by
  unfold markStored
  cases hlatest : s.entries.lookup id with
  | none =>
    dsimp only
    cases he : s.entries.lookup id' with
    | none => rfl
    | some e =>
      have hne : id' ≠ id := by
        rintro rfl
        rw [hlatest] at he
        cases he
      simp [hne]
  | some latest =>
    dsimp only
    by_cases hid : id' = id
    · subst hid
      split
      · rename_i hrevision
        show (s.entries.insert id' _).lookup id' = _
        rw [AList.lookup_insert, hlatest]
        simp [hrevision]
      · rename_i hrevision
        rw [hlatest]
        simp [hrevision]
    · have hsame : ∀ e : Entry, (if id' = id ∧ e.revision = taken.revision then
          { e with dirty := false } else e) = e := fun e => if_neg fun h => hid h.1
      simp only [hsame]
      split
      · show (s.entries.insert id _).lookup id' = _
        rw [AList.lookup_insert_ne hid]
        simp
      · simp

/-- Nothing but the dirt of the listed entries changes. -/
structure Cleaned (xs : List (String × Entry)) (s s' : Service) : Prop where
  revision : s'.revision = s.revision
  kept : ∀ id e, s.entries.lookup id = some e → ∃ e', s'.entries.lookup id = some e' ∧
    e'.detail = e.detail
  origin : ∀ id e', s'.entries.lookup id = some e' → ∃ e, s.entries.lookup id = some e ∧
    e'.detail = e.detail ∧ e'.revision = e.revision ∧
    (e'.dirty = false → e.dirty = false ∨ ∃ x ∈ xs, x.1 = id ∧ x.2.revision = e.revision)

theorem markStored_cleaned (x : String × Entry) : Cleaned [x] s (s.markStored x.1 x.2) := by
  refine ⟨?_, ?_, ?_⟩
  · unfold markStored
    split
    · rfl
    · split <;> rfl
  · intro id e he
    rw [markStored_lookup, he]
    refine ⟨_, rfl, ?_⟩
    dsimp only
    split <;> rfl
  · intro id e' he'
    rw [markStored_lookup] at he'
    obtain ⟨e, he, rfl⟩ := Option.map_eq_some_iff.mp he'
    refine ⟨e, he, ?_⟩
    split
    · rename_i hsame
      exact ⟨rfl, rfl, fun _ => .inr ⟨x, List.mem_cons_self, hsame.1.symm, hsame.2.symm⟩⟩
    · exact ⟨rfl, rfl, .inl⟩

theorem Cleaned.trans {xs ys : List (String × Entry)} {s₁ s₂ s₃ : Service}
    (h₁ : Cleaned xs s₁ s₂) (h₂ : Cleaned ys s₂ s₃) : Cleaned (xs ++ ys) s₁ s₃ := by
  refine ⟨h₂.revision.trans h₁.revision, ?_, ?_⟩
  · intro id e he
    obtain ⟨e₂, he₂, hdetail₂⟩ := h₁.kept id e he
    obtain ⟨e₃, he₃, hdetail₃⟩ := h₂.kept id e₂ he₂
    exact ⟨e₃, he₃, hdetail₃.trans hdetail₂⟩
  · intro id e₃ he₃
    obtain ⟨e₂, he₂, hdetail₂, hrevision₂, hclean₂⟩ := h₂.origin id e₃ he₃
    obtain ⟨e₁, he₁, hdetail₁, hrevision₁, hclean₁⟩ := h₁.origin id e₂ he₂
    refine ⟨e₁, he₁, hdetail₂.trans hdetail₁, hrevision₂.trans hrevision₁, ?_⟩
    intro hclean
    rcases hclean₂ hclean with hclean | ⟨x, hx, hid, hrevision⟩
    · rcases hclean₁ hclean with hclean | ⟨x, hx, hid, hrevision⟩
      · exact .inl hclean
      · exact .inr ⟨x, List.mem_append_left _ hx, hid, hrevision⟩
    · exact .inr ⟨x, List.mem_append_right _ hx, hid, hrevision.trans hrevision₁⟩

theorem foldl_markStored_cleaned (xs : List (String × Entry)) :
    Cleaned xs s (xs.foldl (fun service x => service.markStored x.1 x.2) s) := by
  induction xs generalizing s with
  | nil => exact ⟨rfl, fun _ e he => ⟨e, he, rfl⟩, fun _ e he => ⟨e, he, rfl, rfl, .inl⟩⟩
  | cons x xs ih => exact (markStored_cleaned x).trans ih

theorem Cleaned.clearError {xs : List (String × Entry)} (h : Cleaned xs s s') :
    Cleaned xs s s'.clearError := by
  unfold Service.clearError
  split
  · exact ⟨h.revision, h.kept, h.origin⟩
  · exact h

end Service

end RcdServer.Audit
