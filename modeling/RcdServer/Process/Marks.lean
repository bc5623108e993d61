import RcdServer.Process.Dispatch

/-!
# The mark of a dispatch

Terminal records and marks are durable, a request is never dispatched twice, and no call is made for
a terminal record. A record says that it was interrupted before its dispatch only if it is not
marked, provided that every query read the mark as it stands when it gets the execution: the read
comes before the gate, and a call that ends in between may have marked its record.
-/
namespace RcdServer.Process

open Lib Lib.Run

variable {F : Type}

section Steps

variable {s s' : Sys F}

/-! ## Durable records -/

theorem persist_grows [DecidableEq F] {id : Nat} {c : Call F} {candidate : Record F}
    {available : Bool} {next : Record F → Phase F} :
    Grows s.records (s.persist id c candidate available next).records := by
  unfold Sys.persist
  split
  · exact .refl _
  · cases hup : updateProcessOperation s.records c.key candidate with
    | error e => exact .refl _
    | ok out => exact (written_update hup).grows

theorem step_grows [DecidableEq F] {a : Action F} (h : step s a = some s') :
    Grows s.records s'.records := by
  cases step_move h with
  | create hconfig hnew => exact grows_insert_new hnew _
  | createSealed hconfig hnew => exact grows_insert_new hnew _
  | restoreFailed hrestoring hr hmark hm hup => exact (written_update hup).grows
  | markDispatched => exact persist_grows
  | save => exact persist_grows
  | _ => exact .refl _

/-! ## Fences -/

theorem persist_maintenance [DecidableEq F] {id : Nat} {c : Call F} {candidate : Record F}
    {available : Bool} {next : Record F → Phase F} :
    (s.persist id c candidate available next).maintenance = s.maintenance := by
  unfold Sys.persist
  split
  · rfl
  · split <;> rfl

theorem persist_actions [DecidableEq F] {id : Nat} {c : Call F} {candidate : Record F}
    {available : Bool} {next : Record F → Phase F} :
    (s.persist id c candidate available next).actions = s.actions := by
  unfold Sys.persist
  split
  · rfl
  · split <;> rfl

theorem restoreFence_keeps {m m' : Maintenance} {source request : String} {key : Key}
    (hrequest : request ≠ "") (hfence : m.fence source = request)
    (h : m.restoreFence key.1 key.2 = .ok m') : m'.fence source = request := by
  obtain ⟨hown, hfences⟩ := Maintenance.restoreFence_eq_ok h
  rw [hfences]
  split
  · rename_i heq
    rw [heq] at hfence
    rcases hown with hnone | hsame
    · exact absurd (hfence.symm.trans hnone) hrequest
    · exact hsame.symm.trans hfence
  · exact hfence

/-- A fence is lifted from a request without a record, or from a terminal one; a crash lifts all. -/
theorem step_fence [DecidableEq F] (hinv : Inv s) {a : Action F} (h : step s a = some s')
    (hcrash : a ≠ .crash) {source request : String} (hrequest : request ≠ "")
    (hfence : s.maintenance.fence source = request) (hlifted : s'.maintenance.fence source ≠ request)
    {r : Record F} (hr : s'.records.lookup (source, request) = some r) :
    r.operation.terminal = true := by
  have hrelease : ∀ {m : Maintenance} {source' request' : String},
      m.fence source = request → (m.releaseFence source' request').fence source ≠ request →
      (source, request) = (source', request') := by
    intro m source' request' hheld hfree
    rw [Maintenance.releaseFence_fence] at hfree
    split at hfree
    · rename_i hown
      rw [hown.2, ← hheld, hown.2, hown.1]
    · exact absurd hheld hfree
  cases step_move h with
  | begin hconfig hm =>
    obtain ⟨hnone, -, hfences, -⟩ := Maintenance.beginProcess_eq_ok hm
    have hother := hlifted
    rw [hfences] at hother
    split at hother
    · rename_i heq
      rw [heq, hnone] at hfence
      exact absurd hfence.symm hrequest
    · exact absurd hfence hother
  | createFailed hconfig =>
    rw [Maintenance.endExecution_fence] at hlifted
    have hkey := hrelease hfence hlifted
    obtain ⟨-, hnew, -⟩ := hinv.holder _ hconfig
    rw [hkey, hnew] at hr
    cases hr
  | tryReconcile hconfig hm =>
    obtain ⟨-, hfences, -⟩ := Maintenance.tryReconcile_eq_some hm
    exact absurd ((Maintenance.fence_congr hfences source).trans hfence) hlifted
  | restore hrestoring hm => exact absurd (restoreFence_keeps hrequest hfence hm) hlifted
  | restoreFailed hrestoring hr' hmark hm hup =>
    have hheld := restoreFence_keeps hrequest hfence hm
    dsimp only at hlifted
    split at hlifted
    · rename_i hterminal
      have hkey := hrelease hheld hlifted
      rw [hkey, (written_update hup).stored] at hr
      cases hr
      exact hterminal
    · exact absurd hheld hlifted
  | crash => exact absurd rfl hcrash
  | release hc hphase =>
    have hkey := hrelease hfence hlifted
    have hprogress := hinv.progress _ _ hc
    simp only [CallOk, hphase] at hprogress
    obtain ⟨r', hr', hterminal⟩ := hprogress
    obtain rfl : r' = r := by
      rw [hkey] at hr
      exact Option.some.inj (hr'.symm.trans hr)
    exact hterminal
  | endExecution hc =>
    rw [Maintenance.endExecution_fence] at hlifted
    exact absurd hfence hlifted
  | maintained hf =>
    exact absurd ((Maintenance.fence_congr hf source).trans hfence) hlifted
  | markDispatched | save =>
    rw [persist_maintenance] at hlifted
    exact absurd hfence hlifted
  | _ => exact absurd hfence hlifted

/-! ## Reports -/

/-- The request was not dispatched, as far as it matters to its durable record. -/
def Undispatched (records : Records F) (key : Key) : Prop :=
  ∀ r, records.lookup key = some r → r.operation.terminal = true ∨ r.dispatched = false

/-- A call that takes its request for undispatched is right. -/
def Sincere (records : Records F) (c : Call F) : Prop :=
  match c.phase with
  | .reconciling r => r.dispatched = false → Undispatched records c.key
  | .saving candidate => candidate.operation.errorCode = interruptedBeforeDispatch →
      candidate.dispatched = false ∧ Undispatched records c.key
  | _ => True

def Reported (records : Records F) : Prop :=
  ∀ key r, records.lookup key = some r → r.dispatched = true →
    r.operation.errorCode ≠ interruptedBeforeDispatch

structure Honest (s : Sys F) : Prop where
  reported : Reported s.records
  sincere : ∀ id c, s.calls.lookup id = some c → Sincere s.records c

theorem honest_initial : Honest (Sys.initial : Sys F) :=
  ⟨by simp [Reported, Sys.initial], by simp [Sys.initial]⟩

theorem Sincere.congr {records records' : Records F} {c : Call F} (h : Sincere records c)
    (hrecord : Undispatched records c.key → Undispatched records' c.key) : Sincere records' c := by
  unfold Sincere at h ⊢
  cases hphase : c.phase with
  | reconciling r =>
    simp only [hphase] at h ⊢
    exact fun hmark => hrecord (h hmark)
  | saving candidate =>
    simp only [hphase] at h ⊢
    exact fun hcode => ⟨(h hcode).1, hrecord (h hcode).2⟩
  | _ => trivial

theorem Undispatched.insert_new {records : Records F} {key key' : Key} {r : Record F}
    (h : Undispatched records key) (hmark : r.dispatched = false) :
    Undispatched (records.insert key' r) key := by
  intro r' hr'
  rw [Map.lookup_insert_eq] at hr'
  split at hr'
  · cases hr'
    exact .inr hmark
  · exact h r' hr'

/-- A new record is not marked. -/
theorem Honest.insert_new (hh : Honest s) {key : Key} {r : Record F} (hmark : r.dispatched = false)
    (config : Option (Holder F)) :
    Honest { s with records := s.records.insert key r, config := config } := by
  refine ⟨?_, fun id c hc => (hh.sincere id c hc).congr fun hu => hu.insert_new hmark⟩
  intro key' r' hr'
  rw [Map.lookup_insert_eq] at hr'
  split at hr'
  · cases hr'
    simp [hmark]
  · exact hh.reported key' r' hr'

theorem Honest.addCall (hh : Honest s) {c : Call F} (hc : Sincere s.records c) :
    Honest (s.addCall c) := by
  refine ⟨hh.reported, ?_⟩
  intro id' c' hc'
  rw [show (s.addCall c).calls.lookup id' = _ from Map.lookup_insert_eq] at hc'
  split at hc'
  · cases hc'
    exact hc
  · exact hh.sincere id' c' hc'

theorem Honest.setPhase (hh : Honest s) {id : Nat} {c : Call F} {phase : Phase F}
    (hc : Sincere s.records { c with phase := phase }) : Honest (s.setPhase id c phase) := by
  refine ⟨hh.reported, ?_⟩
  intro id' c' hc'
  rw [lookup_setPhase] at hc'
  split at hc'
  · cases hc'
    exact hc
  · exact hh.sincere id' c' hc'

/-- A candidate that reports an interruption is written over an undispatched record. -/
theorem reported_update [DecidableEq F] {records records' : Records F} {key : Key}
    {candidate saved : Record F} (hreported : Reported records)
    (hcandidate : candidate.operation.errorCode = interruptedBeforeDispatch →
      candidate.dispatched = false ∧ Undispatched records key)
    (h : updateProcessOperation records key candidate = .ok (records', saved)) :
    Reported records' := by
  obtain ⟨current, hcurrent, ⟨-, rfl, -⟩ | ⟨hopen, rfl, rfl⟩⟩ := updateProcessOperation_eq_ok h
  · exact hreported
  · intro key' r hr
    rw [Map.lookup_insert_eq] at hr
    split at hr
    · cases hr
      intro hmark hcode
      obtain ⟨hunmarked, hu⟩ := hcandidate hcode
      rcases hu current hcurrent with hterminal | hclear
      · rw [hopen] at hterminal
        cases hterminal
      · simp [hunmarked, hclear] at hmark
    · exact hreported key' r hr

theorem Honest.persist [DecidableEq F] (hh : Honest s) (hinv : Inv s) {id : Nat} {c : Call F}
    (hc : s.calls.lookup id = some c) {candidate : Record F} {available : Bool}
    {next : Record F → Phase F}
    (hcandidate : candidate.operation.errorCode = interruptedBeforeDispatch →
      candidate.dispatched = false ∧ Undispatched s.records c.key)
    (hnext : ∀ records saved, Sincere records { c with phase := next saved }) :
    Honest (s.persist id c candidate available next) := by
  unfold Sys.persist
  split
  · exact hh.setPhase trivial
  · cases hup : updateProcessOperation s.records c.key candidate with
    | error e => exact hh.setPhase trivial
    | ok out =>
      obtain ⟨records, saved⟩ := out
      refine ⟨reported_update hh.reported hcandidate hup, ?_⟩
      intro id' c' hc'
      rw [lookup_setPhase] at hc'
      split at hc'
      · cases hc'
        show Sincere records _
        split
        · trivial
        · exact hnext records saved
      · rename_i hne
        show Sincere records c'
        refine (hh.sincere id' c' hc').congr fun hu r hr => ?_
        rw [(written_update hup).others _ (hinv.other_key hc hc' hne)] at hr
        exact hu r hr

/-- A query gets the execution with the mark that its record has now. -/
def FreshRead (s : Sys F) : Action F → Prop
  | .tryReconcile => ∀ source request r current,
      s.config = some (.querying source request r) →
      (s.maintenance.tryReconcile source request).isSome →
      s.records.lookup (source, request) = some current → current.operation.terminal = false →
      current.dispatched = true → r.dispatched = true
  | _ => True

theorem step_honest [DecidableEq F] (hinv : Inv s) (hh : Honest s) {a : Action F}
    (hfresh : FreshRead s a) (h : step s a = some s') : Honest s' := by
  cases step_move h with
  | create hconfig hnew hr =>
    exact (hh.insert_new (by rw [hr]) none).addCall trivial
  | createSealed hconfig hnew hterminal hmark => exact hh.insert_new hmark none
  | tryReconcile hconfig hm =>
    rename_i source request r m
    have hopened : Honest { s with maintenance := m, config := none } :=
      ⟨hh.reported, hh.sincere⟩
    refine hopened.addCall ?_
    intro hmark current hcurrent
    by_contra hopen
    simp only [not_or, Bool.not_eq_true, Bool.not_eq_false] at hopen
    have hread := hfresh _ _ _ current hconfig (by simp [hm]) hcurrent hopen.1 hopen.2
    rw [hmark] at hread
    cases hread
  | restoreFailed hrestoring hr hmark hm hup =>
    obtain ⟨hcalls, -⟩ := hinv.restoring (by simp [hrestoring])
    rename_i key _ _ _ _ _
    have hu : Undispatched s.records key := by
      intro current hcurrent
      rw [hr] at hcurrent
      cases hcurrent
      exact .inr hmark
    refine ⟨reported_update hh.reported ?_ hup, by simp [hcalls]⟩
    exact fun _ => ⟨hmark, hu⟩
  | crash => exact ⟨hh.reported, by simp⟩
  | candidate hc hcandidate =>
    refine hh.setPhase ?_
    intro hcode
    obtain ⟨hunmarked, r, hphase, hmark⟩ := hcandidate hcode
    have hsincere := hh.sincere _ _ hc
    simp only [Sincere, hphase] at hsincere
    exact ⟨hunmarked, hsincere hmark⟩
  | markDispatched hc hphase =>
    refine hh.persist hinv hc ?_ fun _ _ => trivial
    have hprogress := hinv.progress _ _ hc
    simp only [CallOk, hphase] at hprogress
    exact fun hcode => absurd hcode hprogress.2.2.2
  | save hc hphase =>
    refine hh.persist hinv hc ?_ fun _ _ => trivial
    have hsincere := hh.sincere _ _ hc
    simpa only [Sincere, hphase] using hsincere
  | act hc hphase =>
    rename_i id c r
    have hmoved : Honest (s.setPhase id c (.awaiting r)) := hh.setPhase trivial
    exact ⟨hmoved.reported, hmoved.sincere⟩
  | release hc hphase =>
    rename_i id c
    have hmoved : Honest (s.setPhase id c .ending) := hh.setPhase trivial
    exact ⟨hmoved.reported, hmoved.sincere⟩
  | endExecution hc =>
    refine ⟨hh.reported, fun id' c' hc' => ?_⟩
    rw [Map.lookup_erase_eq] at hc'
    split at hc'
    · cases hc'
    · exact hh.sincere id' c' hc'
  | _ => exact ⟨hh.reported, hh.sincere⟩

/-- The agent is called for a record that is not terminal. -/
theorem step_actions [DecidableEq F] (hinv : Inv s) {a : Action F} (h : step s a = some s')
    (hacted : s'.actions ≠ s.actions) :
    ∃ key r, s'.actions = key :: s.actions ∧ s.records.lookup key = some r ∧
      r.operation.terminal = false := by
  cases step_move h with
  | act hc hphase =>
    have hprogress := hinv.progress _ _ hc
    simp only [CallOk, hphase] at hprogress
    exact ⟨_, _, rfl, hprogress.1, hprogress.2.2.1⟩
  | markDispatched | save =>
    rw [persist_actions] at hacted
    exact absurd rfl hacted
  | _ => exact absurd rfl hacted

end Steps

/-! ## Every run -/

variable [DecidableEq F]

theorem run_honest {as : List (Action F)} {s : Sys F} (hok : Meets step FreshRead Sys.initial as)
    (h : exec step Sys.initial as = some s) : Inv s ∧ Honest s :=
  meets_invariant FreshRead (fun s => Inv s ∧ Honest s)
    (fun _ _ _ hs hfresh hstep => ⟨step_inv hs.1 hstep, step_honest hs.1 hs.2 hfresh hstep⟩)
    ⟨inv_initial, honest_initial⟩ hok h

theorem action_at_most_once {as : List (Action F)} {s : Sys F}
    (hok : Meets step FreshRead Sys.initial as) (h : exec step Sys.initial as = some s) :
    s.actions.Nodup ∧
    (∀ a s', step s a = some s' → s'.actions ≠ s.actions →
      ∃ key r, s'.actions = key :: s.actions ∧ s.records.lookup key = some r ∧
        r.operation.terminal = false) ∧
    (∀ key r, s.records.lookup key = some r → r.dispatched = true →
      r.operation.errorCode ≠ interruptedBeforeDispatch) ∧
    (∀ a s', step s a = some s' → ∀ key r, s.records.lookup key = some r →
      r.operation.terminal = true → s'.records.lookup key = some r) ∧
    (∀ a s', step s a = some s' → a ≠ .crash → ∀ source request, request ≠ "" →
      s.maintenance.fence source = request → s'.maintenance.fence source ≠ request →
      ∀ r, s'.records.lookup (source, request) = some r → r.operation.terminal = true) ∧
    (s.restoring = none → ∀ source request r, s.records.lookup (source, request) = some r →
      r.operation.terminal = false → s.maintenance.fence source = request) := by
  obtain ⟨hinv, hh⟩ := run_honest hok h
  refine ⟨hinv.nodup, fun a s' hstep => step_actions hinv hstep, hh.reported, ?_, ?_, ?_⟩
  · intro a s' hstep key r hr hterminal
    obtain ⟨r', hr', hsame, -⟩ := (step_grows hstep).kept key r hr
    rw [hr', hsame hterminal]
  · intro a s' hstep hcrash source request hrequest hfence hlifted r hr
    exact step_fence hinv hstep hcrash hrequest hfence hlifted hr
  · intro hserving source request r hr hopen
    exact hinv.fenced (source, request) r hr hopen (by simp [hserving])

/-- The manager crashes while the agent works; the restarted one asks about the request. -/
def crashedAction : List (Action Unit) :=
  [.serve, .execute "S" "q" (), .begin, .create true, .markDispatched 0 true, .act 0, .crash,
    .restore true, .serve, .query "S" "q"]

/-- The record that a query holds was marked before the agent was asked. -/
def Holder.dispatched {F : Type} : Holder F → Bool
  | .querying _ _ r => r.dispatched
  | _ => false

theorem action_at_most_once_crashedAction :
    ∃ s : Sys Unit, exec step Sys.initial (crashedAction ++ [.tryReconcile,
        .reconcile 1 { state := .succeeded }, .save 1 true, .release 1, .endExecution 1]) = some s ∧
      s.actions = [("S", "q")] ∧ s.maintenance.fence "S" = "" ∧
      ∀ key r, s.records.lookup key = some r → r.dispatched = true →
        r.operation.errorCode ≠ interruptedBeforeDispatch := by
  have hbefore : (exec step (Sys.initial : Sys Unit) crashedAction).any
      (fun s => s.config.any Holder.dispatched) = true := by
    decide +kernel
  have hrun : (exec step (Sys.initial : Sys Unit) (crashedAction ++ [.tryReconcile,
      .reconcile 1 { state := .succeeded }, .save 1 true, .release 1, .endExecution 1])).any
      (fun s => decide (s.actions = [("S", "q")] ∧ s.maintenance.fence "S" = "")) = true := by
    decide +kernel
  obtain ⟨s, hs, hstate⟩ := (Option.any_eq_true _ _).mp hrun
  obtain ⟨hactions, hfence⟩ := of_decide_eq_true hstate
  have hok : Meets step FreshRead (Sys.initial : Sys Unit) (crashedAction ++ [.tryReconcile,
      .reconcile 1 { state := .succeeded }, .save 1 true, .release 1, .endExecution 1]) := by
    refine meets_append.mpr ⟨?_, ?_⟩
    · simp only [crashedAction, Meets, FreshRead, true_and]
      exact fun _ _ _ _ _ _ _ _ _ _ _ _ _ _ _ _ _ _ _ _ => trivial
    · intro mid hmid
      rw [hmid] at hbefore
      refine ⟨?_, fun _ _ => ⟨trivial, fun _ _ => ⟨trivial, fun _ _ => ⟨trivial, fun _ _ =>
        ⟨trivial, fun _ _ => trivial⟩⟩⟩⟩⟩
      intro source request r current hconfig _ _ _ _
      simpa [hconfig, Holder.dispatched] using hbefore
  exact ⟨s, hs, hactions, hfence, (action_at_most_once hok hs).2.2.1⟩

/-- A query reads the record before its mark and gets the execution after the call has ended. -/
theorem dispatched_reported_interrupted :
    ∃ s : Sys Unit, exec step Sys.initial
        [.serve, .execute "S" "q" (), .begin, .create true, .query "S" "q", .markDispatched 0 true,
          .act 0, .result 0 { state := .unknown, errorCode := "unknown" }, .save 0 true,
          .endExecution 0, .tryReconcile, .reconcile 1 { state := .unknown }, .save 1 true,
          .release 1] = some s ∧
      s.actions = [("S", "q")] ∧ s.maintenance.fence "S" = "" ∧
      ∃ r, s.records.lookup ("S", "q") = some r ∧ r.dispatched = true ∧
        r.operation.errorCode = interruptedBeforeDispatch := by
  have hrun : (exec step (Sys.initial : Sys Unit)
      [.serve, .execute "S" "q" (), .begin, .create true, .query "S" "q", .markDispatched 0 true,
        .act 0, .result 0 { state := .unknown, errorCode := "unknown" }, .save 0 true,
        .endExecution 0, .tryReconcile, .reconcile 1 { state := .unknown }, .save 1 true,
        .release 1]).any
      (fun s => decide (s.actions = [("S", "q")] ∧ s.maintenance.fence "S" = "") &&
        (s.records.lookup ("S", "q")).any fun r =>
          decide (r.dispatched = true ∧ r.operation.errorCode = interruptedBeforeDispatch)) =
        true := by
    decide +kernel
  obtain ⟨s, hs, hstate⟩ := (Option.any_eq_true _ _).mp hrun
  obtain ⟨hactions, hrecord⟩ := Bool.and_eq_true_iff.mp hstate
  obtain ⟨r, hr, hreport⟩ := (Option.any_eq_true _ _).mp hrecord
  obtain ⟨hactions, hfence⟩ := of_decide_eq_true hactions
  exact ⟨s, hs, hactions, hfence, r, hr, of_decide_eq_true hreport⟩

end RcdServer.Process
