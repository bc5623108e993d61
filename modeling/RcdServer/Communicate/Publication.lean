import RcdServer.Communicate.Points

/-!
# The point store over its calls

Every call of `PointStore` in place, and what holds of the samples after any sequence of them: a
sample has the declared type, and one that is not Good holds the zero of its type.
-/
namespace RcdServer.Communicate.Points

variable {F32 F64 : Type}

/-- The clock readings of a call are part of it. -/
inductive StoreCall (F32 F64 : Type) where
  | portState (id status error : String) (reconnected : Bool)
  | attempt (task : String) (now : Utc)
  | recordFrameErrors (id : String) (rejected discarded : Nat) (expired : Bool)
  | publish (task : String) (updates : List (PointUpdate F32 F64)) (sourceTime now : Utc)
  | fail (task : String) (quality : Quality) (error : String)
  deriving DecidableEq

namespace Store

variable [Zero F32] [Zero F64] [Floating F32] [Floating F64] (c : Config)

def result (s : Store F32 F64) : StoreCall F32 F64 → Except StoreError (Store F32 F64)
  | .portState id status error reconnected => s.portState id status error reconnected
  | .attempt task now => s.attempt c task now
  | .recordFrameErrors id rejected discarded expired =>
    s.recordFrameErrors id rejected discarded expired
  | .publish task updates sourceTime now => s.publish c task updates sourceTime now
  | .fail task quality error => s.fail c task quality error

/-- A call in place: every error is returned before the first write. -/
def call (s : Store F32 F64) (k : StoreCall F32 F64) : Except StoreError Unit × Store F32 F64 :=
  match s.result c k with
  | .error e => (.error e, s)
  | .ok s => (.ok (), s)

def after (s : Store F32 F64) (calls : List (StoreCall F32 F64)) : Store F32 F64 :=
  calls.foldl (fun s k => (s.call c k).2) s

end Store

/-! ## Typed samples -/

/-- A sample as its definition declares it. -/
structure Typed [Zero F32] [Zero F64] (d : PointDefinition) (sample : Sample F32 F64) : Prop where
  type : dataType sample.value = d.dataType
  zero : sample.quality ≠ .good → sample.value = d.dataType.zero

/-- The samples are those of the configured points. -/
structure WellTyped [Zero F32] [Zero F64] (c : Config) (s : Store F32 F64) : Prop where
  defined : ∀ name, (s.samples name).isSome = (c.definition name).isSome
  typed : ∀ name d sample, c.definition name = some d → s.samples name = some sample →
    Typed d sample

section Typing

variable [Zero F32] [Zero F64] {c : Config} {s s' : Store F32 F64} {task : String}

@[simp]
theorem dataType_zero (t : DataType) : dataType (t.zero : Value F32 F64) = t := by
  cases t <;> rfl

theorem wellTyped_new : WellTyped c (Store.new c : Store F32 F64) where
  defined name := by simp [Store.new]
  typed := by
    intro name d sample hd hsample
    simp only [Store.new, hd, Option.map_some, Option.some.injEq] at hsample
    subst hsample
    exact ⟨dataType_zero _, fun _ => rfl⟩

theorem WellTyped.of_samples (h : WellTyped c s) (heq : s'.samples = s.samples) :
    WellTyped c s' := by
  constructor
  · rw [heq]
    exact h.defined
  · rw [heq]
    exact h.typed

theorem typed_failed {d : PointDefinition} {sample : Sample F32 F64} {quality : Quality}
    {error : String} (h : Typed d sample) : Typed d (Store.failedSample quality error sample) where
  type := (dataType_zero _).trans h.type
  zero _ := congrArg DataType.zero h.type

theorem typed_published {d : PointDefinition} {u : PointUpdate F32 F64} {sourceTime : Utc}
    (h : dataType u.value = d.dataType) : Typed d (Store.publishedSample u sourceTime) := by
  unfold Store.publishedSample
  split_ifs with hgood
  · exact ⟨h, fun hbad => absurd hgood hbad⟩
  · exact ⟨(dataType_zero _).trans h, fun _ => congrArg DataType.zero h⟩

omit [Zero F32] [Zero F64] in
/-- The loop over the updates compares every value with the declared type. -/
theorem checkUpdates_typed [Floating F32] [Floating F64] {seen : List String}
    {updates : List (PointUpdate F32 F64)} (h : Store.checkUpdates c task seen updates = .ok ()) :
    ∀ u ∈ updates, ∃ d, c.definition u.name = some d ∧ dataType u.value = d.dataType := by
  induction updates generalizing seen with
  | nil => simp
  | cons v updates ih =>
    unfold Store.checkUpdates at h
    cases hd : c.definition v.name with
    | none => simp [hd] at h
    | some d =>
      simp only [hd] at h
      split at h
      · cases h
      rename_i hgood
      simp only [not_or, not_not] at hgood
      refine List.forall_mem_cons.mpr ⟨⟨d, hd, hgood.2.1.symm⟩, ih h⟩

theorem wellTyped_publish [Floating F32] [Floating F64] (h : WellTyped c s)
    {updates : List (PointUpdate F32 F64)} {sourceTime now : Utc}
    (hok : s.publish c task updates sourceTime now = .ok s') : WellTyped c s' := by
  obtain ⟨hinside, houtside⟩ := Store.publish_ok hok
  have htypes := checkUpdates_typed (Store.publish_checked hok).1
  constructor
  · intro name
    by_cases hname : name ∈ c.pointsOf task
    · obtain ⟨d, hd, -⟩ := mem_pointsOf.mp hname
      obtain ⟨u, -, -, hsample⟩ := hinside name hname
      rw [hsample, hd]
      rfl
    · rw [houtside name hname, h.defined]
  · intro name d sample hd hsample
    by_cases hname : name ∈ c.pointsOf task
    · obtain ⟨u, hu, rfl, hu'⟩ := hinside name hname
      obtain rfl := Option.some.inj (hu'.symm.trans hsample)
      obtain ⟨d', hd', htype⟩ := htypes u hu
      obtain rfl := Option.some.inj (hd'.symm.trans hd)
      exact typed_published htype
    · rw [houtside name hname] at hsample
      exact h.typed name d sample hd hsample

theorem wellTyped_fail (h : WellTyped c s) {quality : Quality} {error : String}
    (hok : s.fail c task quality error = .ok s') : WellTyped c s' := by
  obtain ⟨-, hinside, houtside⟩ := Store.fail_ok hok
  constructor
  · intro name
    by_cases hname : name ∈ c.pointsOf task
    · rw [hinside name hname, Option.isSome_map, h.defined]
    · rw [houtside name hname, h.defined]
  · intro name d sample hd hsample
    by_cases hname : name ∈ c.pointsOf task
    · rw [hinside name hname] at hsample
      obtain ⟨sample', hsample', rfl⟩ := Option.map_eq_some_iff.mp hsample
      exact typed_failed (h.typed name d sample' hd hsample')
    · rw [houtside name hname] at hsample
      exact h.typed name d sample hd hsample

variable [Floating F32] [Floating F64]

theorem wellTyped_call (h : WellTyped c s) (k : StoreCall F32 F64) :
    WellTyped c (s.call c k).2 := by
  unfold Store.call
  cases hresult : s.result c k with
  | error e => exact h
  | ok s' =>
    cases k with
    | portState id status error reconnected => exact h.of_samples (Store.onPort_samples hresult)
    | attempt task now => exact h.of_samples (Store.attempt_samples hresult)
    | recordFrameErrors id rejected discarded expired =>
      exact h.of_samples (Store.onPort_samples hresult)
    | publish task updates sourceTime now => exact wellTyped_publish h hresult
    | fail task quality error => exact wellTyped_fail h hresult

theorem wellTyped_after (h : WellTyped c s) (calls : List (StoreCall F32 F64)) :
    WellTyped c (s.after c calls) := by
  induction calls generalizing s with
  | nil => exact h
  | cons k calls ih => exact ih (wellTyped_call h k)

end Typing

/-! ## The laws -/

section Laws

variable [Zero F32] [Zero F64] [Floating F32] [Floating F64] {c : Config} {s : Store F32 F64}

/-- The samples that a batch replaces, each once, and what it leaves. -/
structure Replaces (c : Config) (task : String) (updates : List (PointUpdate F32 F64))
    (sourceTime : Utc) (s s' : Store F32 F64) : Prop where
  complete : (updates.map (·.name)).Perm (c.pointsOf task)
  once : (updates.map (·.name)).Nodup
  replaced : ∀ u ∈ updates, s'.samples u.name = some (Store.publishedSample u sourceTime)
  others : ∀ name ∉ c.pointsOf task, s'.samples name = s.samples name

/-- What the store promises in one of its states. -/
structure PublicationLaws (c : Config) (s : Store F32 F64) : Prop where
  atomic : ∀ task updates sourceTime now,
    (∃ e, s.call c (.publish task updates sourceTime now) = (.error e, s)) ∨
      ∃ s', s.call c (.publish task updates sourceTime now) = (.ok (), s') ∧
        Replaces c task updates sourceTime s s'
  typed : WellTyped c s
  failed : ∀ task quality error name sample,
    (s.call c (.fail task quality error)).2.samples name = some sample → sample.quality = .good →
      s.samples name = some sample

theorem publish_atomic (task : String) (updates : List (PointUpdate F32 F64))
    (sourceTime now : Utc) :
    (∃ e, s.call c (.publish task updates sourceTime now) = (.error e, s)) ∨
      ∃ s', s.call c (.publish task updates sourceTime now) = (.ok (), s') ∧
        Replaces c task updates sourceTime s s' := by
  unfold Store.call Store.result
  cases hresult : s.publish c task updates sourceTime now with
  | error e => exact .inl ⟨e, by simp [hresult]⟩
  | ok s' =>
    obtain ⟨-, hnodup, hperm, hsamples⟩ := Store.publish_checked hresult
    refine .inr ⟨s', by simp [hresult], hperm, hnodup, ?_, (Store.publish_ok hresult).2⟩
    intro u hu
    rw [hsamples, Store.insertAll_mem hnodup hu]

theorem fail_not_good {task : String} {quality : Quality} {error name : String}
    {sample : Sample F32 F64}
    (h : (s.call c (.fail task quality error)).2.samples name = some sample)
    (hgood : sample.quality = .good) : s.samples name = some sample := by
  unfold Store.call Store.result at h
  cases hresult : s.fail c task quality error with
  | error e => simpa [hresult] using h
  | ok s' =>
    simp only [hresult] at h
    obtain ⟨hquality, hinside, houtside⟩ := Store.fail_ok hresult
    by_cases hname : name ∈ c.pointsOf task
    · rw [hinside name hname] at h
      obtain ⟨sample', -, rfl⟩ := Option.map_eq_some_iff.mp h
      exact absurd hgood hquality
    · rwa [houtside name hname] at h

/-- In every state that the calls can reach. -/
theorem publication_laws (c : Config) (calls : List (StoreCall F32 F64)) :
    PublicationLaws c ((Store.new c).after c calls) where
  atomic := publish_atomic
  typed := wellTyped_after wellTyped_new calls
  failed _ _ _ _ _ := fail_not_good

end Laws

end RcdServer.Communicate.Points
