import RcdServer.Process.Operations

/-!
# What a step of the process operations does

The repository keeps terminal records and marks. `Move` lists the effects of the steps, with what
the code has checked before each.
-/
namespace RcdServer.Process

open Lib

variable {F : Type}

/-! ## The repository -/

theorem createProcessOperation_eq_ok {records records' : Records F} {key : Key} {r : Record F}
    (h : createProcessOperation records key r = .ok records') :
    records.lookup key = none ∧ records' = records.insert key r := by
  unfold createProcessOperation at h
  split at h
  · cases h
  rename_i hnew
  split at h
  · cases h
  · cases h
    exact ⟨AList.lookup_eq_none.mpr hnew, rfl⟩

/-- An update of a terminal record returns it; another record becomes the candidate. -/
theorem updateProcessOperation_eq_ok [DecidableEq F] {records records' : Records F} {key : Key}
    {candidate saved : Record F}
    (h : updateProcessOperation records key candidate = .ok (records', saved)) :
    ∃ current, records.lookup key = some current ∧
      (current.operation.terminal = true ∧ records' = records ∧ saved = current ∨
        current.operation.terminal = false ∧ records' = records.insert key saved ∧
        saved = { candidate with dispatched := candidate.dispatched || current.dispatched }) := by
  unfold updateProcessOperation at h
  cases hc : records.lookup key with
  | none => simp [hc] at h
  | some current =>
    simp only [hc] at h
    split at h
    · cases h
    split at h
    · rename_i hterminal
      cases h
      exact ⟨_, rfl, .inl ⟨hterminal, rfl, rfl⟩⟩
    · rename_i hterminal
      cases h
      exact ⟨_, rfl, .inr ⟨by simpa using hterminal, rfl, rfl⟩⟩

/-- What a step may do to the durable records: terminal ones stay, marks stay. -/
structure Grows (records records' : Records F) : Prop where
  kept : ∀ key r, records.lookup key = some r → ∃ r', records'.lookup key = some r' ∧
    (r.operation.terminal = true → r' = r) ∧ (r.dispatched = true → r'.dispatched = true)

theorem Grows.refl (records : Records F) : Grows records records :=
  ⟨fun _ r hr => ⟨r, hr, fun _ => rfl, fun h => h⟩⟩

theorem grows_insert_new {records : Records F} {key : Key} (h : records.lookup key = none)
    (r : Record F) : Grows records (records.insert key r) := by
  refine ⟨fun key' r' hr' => ⟨r', ?_, fun _ => rfl, fun h => h⟩⟩
  have hne : key' ≠ key := by
    rintro rfl
    rw [h] at hr'
    cases hr'
  exact (AList.lookup_insert_ne hne).trans hr'

/-- One record is written. -/
structure Written (records records' : Records F) (key : Key) (saved : Record F) : Prop where
  others : ∀ key', key' ≠ key → records'.lookup key' = records.lookup key'
  stored : records'.lookup key = some saved
  grows : Grows records records'

theorem written_update [DecidableEq F] {records records' : Records F} {key : Key}
    {candidate saved : Record F}
    (h : updateProcessOperation records key candidate = .ok (records', saved)) :
    Written records records' key saved := by
  obtain ⟨current, hcurrent, ⟨-, rfl, rfl⟩ | ⟨hopen, rfl, hsaved⟩⟩ := updateProcessOperation_eq_ok h
  · exact ⟨fun _ _ => rfl, hcurrent, .refl _⟩
  · refine ⟨fun key' hne => AList.lookup_insert_ne hne, AList.lookup_insert _, ⟨?_⟩⟩
    intro key' r hr
    by_cases hkey : key' = key
    · subst hkey
      obtain rfl : current = r := Option.some.inj (hcurrent.symm.trans hr)
      refine ⟨saved, AList.lookup_insert _, fun hterminal => ?_, fun hmark => ?_⟩
      · rw [hopen] at hterminal
        cases hterminal
      · simp [hsaved, hmark]
    · exact ⟨r, (AList.lookup_insert_ne hkey).trans hr, fun _ => rfl, fun h => h⟩

/-! ## The steps -/

theorem unlocked {s : Sys F} (h : ¬ s.locked = true) : s.config = none ∧ s.restoring = none := by
  simpa [Sys.locked] using h

inductive Move [DecidableEq F] (s : Sys F) : Action F → Sys F → Prop
  | same {a : Action F} : Move s a s
  | unlock {a : Action F} : Move s a { s with config := none }
  | admission {a : Action F} {source request : String} {holder : Holder F} (hfree : s.restoring = none)
    (hrequest : request ≠ "") (hnew : s.records.lookup (source, request) = none)
    (hholder : ∃ fixed, holder = .admitting source request fixed ∨
      holder = .sealing source request fixed) :
    Move s a { s with config := some holder }
  | begin {source request : String} {fixed : F} {m : Maintenance}
    (hconfig : s.config = some (.admitting source request fixed))
    (hm : s.maintenance.beginProcess source request = .ok m) :
    Move s .begin { s with
      maintenance := m, config := some (.creating source request fixed) }
  | createFailed {a : Action F} {source request : String} {fixed : F}
    (hconfig : s.config = some (.creating source request fixed)) :
    Move s a { s with
      maintenance := (s.maintenance.releaseFence source request).endExecution source request
      config := none }
  | create {a : Action F} {source request : String} {fixed : F} {r : Record F}
    (hconfig : s.config = some (.creating source request fixed))
    (hnew : s.records.lookup (source, request) = none)
    (hr : r = { fixed := fixed, operation := { state := .accepted } }) :
    Move s a ({ s with
      records := s.records.insert (source, request) r
      config := none }.addCall ⟨source, request, .admitted r⟩)
  | createSealed {a : Action F} {source request : String} {fixed : F} {r : Record F}
    (hconfig : s.config = some (.sealing source request fixed))
    (hnew : s.records.lookup (source, request) = none) (hterminal : r.operation.terminal = true)
    (hmark : r.dispatched = false) :
    Move s a { s with records := s.records.insert (source, request) r, config := none }
  | query {a : Action F} {source request : String} {r : Record F} (hfree : s.restoring = none)
    (hr : s.records.lookup (source, request) = some r) :
    Move s a { s with config := some (.querying source request r) }
  | tryReconcile {source request : String} {r : Record F} {m : Maintenance}
    (hconfig : s.config = some (.querying source request r))
    (hm : s.maintenance.tryReconcile source request = some m) :
    Move s .tryReconcile
      ({ s with maintenance := m, config := none }.addCall ⟨source, request, .reconciling r⟩)
  | restore {a : Action F} {key : Key} {rest : List Key} {m : Maintenance}
    (hrestoring : s.restoring = some (key :: rest))
    (hm : s.maintenance.restoreFence key.1 key.2 = .ok m) :
    Move s a { s with maintenance := m, restoring := some rest }
  | restoreFailed {a : Action F} {key : Key} {rest : List Key} {r saved : Record F}
    {records : Records F} {m : Maintenance} (hrestoring : s.restoring = some (key :: rest))
    (hr : s.records.lookup key = some r) (hmark : r.dispatched = false)
    (hm : s.maintenance.restoreFence key.1 key.2 = .ok m)
    (hup : updateProcessOperation s.records key
      (failProcessRecord r none interruptedBeforeDispatch) = .ok (records, saved)) :
    Move s a { s with
      records := records, restoring := some rest
      maintenance := if saved.operation.terminal then m.releaseFence key.1 key.2 else m }
  | serve (hdone : s.restoring = some []) : Move s .serve { s with restoring := none }
  | crash : Move s .crash { s with
      maintenance := .initial, restoring := some (pendingKeys s.records), config := none
      calls := ∅ }
  /-- Only a reconciliation that read no mark reports an interruption before the dispatch. -/
  | candidate {a : Action F} {id : Nat} {c : Call F} {candidate : Record F}
    (hc : s.calls.lookup id = some c)
    (hcandidate : candidate.operation.errorCode = interruptedBeforeDispatch →
      candidate.dispatched = false ∧ ∃ r, c.phase = .reconciling r ∧ r.dispatched = false) :
    Move s a (s.setPhase id c (.saving candidate))
  | markDispatched {id : Nat} {c : Call F} {r : Record F} {available : Bool}
    (hc : s.calls.lookup id = some c) (hphase : c.phase = .admitted r) :
    Move s (.markDispatched id available)
      (s.persist id c { r with dispatched := true } available .dispatching)
  | act {id : Nat} {c : Call F} {r : Record F} (hc : s.calls.lookup id = some c)
    (hphase : c.phase = .dispatching r) :
    Move s (.act id) { s.setPhase id c (.awaiting r) with actions := c.key :: s.actions }
  | save {id : Nat} {c : Call F} {candidate : Record F} {available : Bool}
    (hc : s.calls.lookup id = some c) (hphase : c.phase = .saving candidate) :
    Move s (.save id available) (s.persist id c candidate available fun _ => .ending)
  | release {id : Nat} {c : Call F} (hc : s.calls.lookup id = some c)
    (hphase : c.phase = .releasing) :
    Move s (.release id) { s.setPhase id c .ending with
      maintenance := s.maintenance.releaseFence c.source c.request }
  | endExecution {id : Nat} {c : Call F} (hc : s.calls.lookup id = some c) :
    Move s (.endExecution id) { s with
      maintenance := s.maintenance.endExecution c.source c.request
      calls := s.calls.erase id }
  | maintained {a : Action F} {m : Maintenance} (hf : m.fences = s.maintenance.fences)
    (he : m.executing = s.maintenance.executing) : Move s a { s with maintenance := m }

section Inversions

variable [DecidableEq F] {s s' : Sys F} {a : Action F} {available : Bool}

theorem admission_move {source request : String} {holder : Holder F}
    (hholder : ∃ fixed, holder = .admitting source request fixed ∨
      holder = .sealing source request fixed)
    (h : s.admission source request holder = some s') : Move s a s' := by
  unfold Sys.admission at h
  split at h
  · cases h
  rename_i hfree
  simp only [Bool.or_eq_true, not_or, beq_iff_eq] at hfree
  split at h
  · cases h
    exact .same
  rename_i hnew
  cases hcheck : s.maintenance.check source false with
  | error e =>
    simp only [hcheck, Option.some.injEq] at h
    exact h ▸ .same
  | ok _ =>
    simp only [hcheck, Option.some.injEq] at h
    exact h ▸ .admission (unlocked hfree.1).2 hfree.2 (AList.lookup_eq_none.mpr hnew) hholder

theorem begin_move (h : s.begin = some s') : Move s .begin s' := by
  unfold Sys.begin at h
  generalize hconfig : s.config = config at h
  cases config with
  | none => cases h
  | some holder =>
    cases holder with
    | sealing | creating | querying => cases h
    | admitting source request fixed =>
      dsimp only at h
      cases hm : s.maintenance.beginProcess source request with
      | error e =>
        simp only [hm, Option.some.injEq] at h
        exact h ▸ .unlock
      | ok m =>
        simp only [hm, Option.some.injEq] at h
        exact h ▸ .begin hconfig hm

theorem create_move (h : s.create available = some s') : Move s a s' := by
  unfold Sys.create at h
  generalize hconfig : s.config = config at h
  cases config with
  | none => cases h
  | some holder =>
    cases holder with
    | admitting | sealing | querying => cases h
    | creating source request fixed =>
      dsimp only at h
      split at h
      · cases h
        exact .createFailed hconfig
      generalize hcreate : createProcessOperation s.records (source, request)
        { fixed := fixed, operation := { state := .accepted } } = out at h
      cases out with
      | error e =>
        cases h
        exact .createFailed hconfig
      | ok records =>
        cases h
        obtain ⟨hnew, rfl⟩ := createProcessOperation_eq_ok hcreate
        exact .create hconfig hnew rfl

theorem createSealed_move (h : s.createSealed available = some s') : Move s a s' := by
  unfold Sys.createSealed at h
  generalize hconfig : s.config = config at h
  cases config with
  | none => cases h
  | some holder =>
    cases holder with
    | admitting | creating | querying => cases h
    | sealing source request fixed =>
      dsimp only at h
      split at h
      · cases h
        exact .unlock
      split at h
      · cases h
        exact .unlock
      · rename_i records hcreate
        cases h
        obtain ⟨hnew, rfl⟩ := createProcessOperation_eq_ok hcreate
        exact .createSealed hconfig hnew rfl rfl

theorem query_move {source request : String} (h : s.query source request = some s') :
    Move s a s' := by
  unfold Sys.query at h
  split at h
  · cases h
  rename_i hfree
  cases hr : s.records.lookup (source, request) with
  | none =>
    simp only [hr, Option.some.injEq] at h
    exact h ▸ .same
  | some r =>
    simp only [hr] at h
    split at h
    · cases h
      exact .same
    · cases h
      exact .query (unlocked hfree).2 hr

theorem tryReconcile_move (h : s.tryReconcile = some s') : Move s .tryReconcile s' := by
  unfold Sys.tryReconcile at h
  generalize hconfig : s.config = config at h
  cases config with
  | none => cases h
  | some holder =>
    cases holder with
    | admitting | sealing | creating => cases h
    | querying source request r =>
      dsimp only at h
      cases hm : s.maintenance.tryReconcile source request with
      | none =>
        simp only [hm, Option.some.injEq] at h
        exact h ▸ .unlock
      | some m =>
        simp only [hm, Option.some.injEq] at h
        exact h ▸ .tryReconcile hconfig hm

theorem restore_move (h : s.restore available = some s') : Move s a s' := by
  unfold Sys.restore at h
  generalize hrestoring : s.restoring = restoring at h
  cases restoring with
  | none => cases h
  | some todo =>
    cases todo with
    | nil => cases h
    | cons key rest =>
      dsimp only at h
      cases hr : s.records.lookup key with
      | none => simp [hr] at h
      | some r =>
        cases hm : s.maintenance.restoreFence key.1 key.2 with
        | error e => simp [hr, hm] at h
        | ok m =>
          simp only [hr, hm] at h
          split at h
          · cases h
            exact .restore hrestoring hm
          rename_i hmark
          split at h
          · cases h
          cases hup : updateProcessOperation s.records key
              (failProcessRecord r none interruptedBeforeDispatch) with
          | error e => simp [hup] at h
          | ok out =>
            obtain ⟨records, saved⟩ := out
            simp only [hup, Option.some.injEq] at h
            exact h ▸ .restoreFailed hrestoring hr (Bool.eq_false_iff.mpr hmark) hm hup

theorem step_move (h : step s a = some s') : Move s a s' := by
  cases a with
  | restore available => exact restore_move h
  | serve =>
    simp only [step] at h
    split at h
    · cases h
      exact .serve ‹_›
    · cases h
  | crash =>
    cases h
    exact .crash
  | execute source request fixed => exact admission_move ⟨fixed, .inl rfl⟩ h
  | resolve source request fixed => exact admission_move ⟨fixed, .inr rfl⟩ h
  | refuse =>
    simp only [step] at h
    split at h
    · cases h
      exact .unlock
    · cases h
      exact .unlock
    · cases h
  | begin => exact begin_move h
  | create available => exact create_move h
  | createSealed available => exact createSealed_move h
  | preflightFailed id cause =>
    obtain ⟨c, hc, h⟩ := Option.bind_eq_some_iff.mp h
    cases hphase : c.phase with
    | admitted r =>
      simp only [hphase] at h
      split at h
      · cases h
      · rename_i hcause
        cases h
        refine .candidate hc ?_
        intro hcode
        exfalso
        cases cause with
        | none =>
          have hother : "precondition_failed" ≠ interruptedBeforeDispatch := by decide
          exact hother hcode
        | some reason => exact hcause (by simpa [failProcessRecord] using hcode)
    | _ => simp [hphase] at h
  | markDispatched id available =>
    obtain ⟨c, hc, h⟩ := Option.bind_eq_some_iff.mp h
    cases hphase : c.phase with
    | admitted r =>
      simp only [hphase, Option.some.injEq] at h
      exact h ▸ .markDispatched hc hphase
    | _ => simp [hphase] at h
  | act id =>
    obtain ⟨c, hc, h⟩ := Option.bind_eq_some_iff.mp h
    cases hphase : c.phase with
    | dispatching r =>
      simp only [hphase, Option.some.injEq] at h
      exact h ▸ .act hc hphase
    | _ => simp [hphase] at h
  | result id operation =>
    obtain ⟨c, hc, h⟩ := Option.bind_eq_some_iff.mp h
    cases hphase : c.phase with
    | awaiting r =>
      simp only [hphase] at h
      split at h
      · cases h
      · rename_i hcode
        cases h
        exact .candidate hc fun hinterrupted => absurd hinterrupted hcode
    | _ => simp [hphase] at h
  | save id available =>
    obtain ⟨c, hc, h⟩ := Option.bind_eq_some_iff.mp h
    cases hphase : c.phase with
    | saving candidate =>
      simp only [hphase, Option.some.injEq] at h
      exact h ▸ .save hc hphase
    | _ => simp [hphase] at h
  | release id =>
    obtain ⟨c, hc, h⟩ := Option.bind_eq_some_iff.mp h
    cases hphase : c.phase with
    | releasing =>
      simp only [hphase, Option.some.injEq] at h
      exact h ▸ .release hc hphase
    | _ => simp [hphase] at h
  | endExecution id =>
    obtain ⟨c, hc, h⟩ := Option.bind_eq_some_iff.mp h
    cases hphase : c.phase with
    | ending =>
      simp only [hphase, Option.some.injEq] at h
      exact h ▸ .endExecution hc
    | _ => simp [hphase] at h
  | query source request => exact query_move h
  | tryReconcile => exact tryReconcile_move h
  | reconcile id operation =>
    obtain ⟨c, hc, h⟩ := Option.bind_eq_some_iff.mp h
    cases hphase : c.phase with
    | reconciling r =>
      simp only [hphase] at h
      split at h
      · cases h
      · rename_i hcode
        cases h
        refine .candidate hc ?_
        intro hinterrupted
        unfold Sys.reconciled at hinterrupted ⊢
        split at hinterrupted
        · exact absurd hinterrupted hcode
        · rename_i hmark
          rw [if_neg hmark]
          exact ⟨Bool.eq_false_iff.mpr hmark, r, hphase, Bool.eq_false_iff.mpr hmark⟩
    | _ => simp [hphase] at h
  | beginMutation source =>
    simp only [step] at h
    cases hm : s.maintenance.beginMutation source with
    | error e =>
      simp only [hm, Option.some.injEq] at h
      exact h ▸ .same
    | ok out =>
      simp only [hm, Option.some.injEq] at h
      obtain ⟨hf, he⟩ := Maintenance.beginMutation_frame hm
      exact h ▸ .maintained hf he
  | endMutation source lease =>
    cases h
    obtain ⟨hf, he⟩ := @Maintenance.endMutation_frame s.maintenance source lease
    exact .maintained hf he

end Inversions

end RcdServer.Process
