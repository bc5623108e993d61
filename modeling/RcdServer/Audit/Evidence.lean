import RcdServer.Audit.Saves

/-!
# Evidence only grows

Along a run an entry that is not evicted keeps its progress, its newest snapshot and its mark of a
gap, and a clean entry is stored. The callers promise that what belongs to an id stays, and that a
page is of the gateway that its commands were sent to. The mark needs more: `evidence` puts a copy
that it has read before, and an entry marked in between loses its mark.
-/
namespace RcdServer.Audit

open Lib Lib.Run Routes

/-- The callers' promise: a command's id determines its fixed columns and its target, and a page
with a snapshot of a traced command is of that command's gateway. -/
def Promised (pins : Pins) (s : Sys) : Action → Prop
  | .record c _ => Agrees pins { command := c }
  | .trace c t _ => Agrees pins { command := c, trace := some t }
  | .commitPage p => ∀ v ∈ p.values, ∀ e t, s.service.entries.lookup v.commandID = some e →
      e.command.sourceID = p.source → e.trace = some t → t.target.gatewayInstanceID = p.gateway
  | _ => True

/-- No unmarked copy is put over a marked trace. -/
def FreshMark (s : Sys) : Action → Prop
  | .trace c t _ => s.service.KeepsMark { command := c, trace := some t }
  | .restore id _ => ∀ d, s.repository.commandDetail id = some d → s.service.KeepsMark d
  | .putEvidence k _ => ∀ d, s.readings.lookup k = some (.putting d) → s.service.KeepsMark d
  | _ => True

def Careful (pins : Pins) (s : Sys) (a : Action) : Prop := Promised pins s a ∧ FreshMark s a

section Runs

variable {pins : Pins} {env : Env} {s s' : Sys} {a : Action}

theorem step_inv (hinv : Inv pins s) (hok : Promised pins s a) (h : step env s a = some s') :
    Inv pins s' := by
  cases a with
  | record c victim => exact put_inv hinv hok h
  | trace c t victim => exact put_inv hinv hok h
  | restore id victim =>
    obtain ⟨d, hd, h⟩ := Option.bind_eq_some_iff.mp h
    exact put_inv hinv (commandDetail_agrees hinv.rows hd).2 h
  | evidence source v =>
    cases h
    exact evidence_inv hinv env source v
  | load k available => exact load_inv hinv h
  | putEvidence k victim => exact putEvidence_inv hinv h
  | markHistoryGap source gateway =>
    cases h
    exact hinv.marks (Service.markHistoryGap_marks _ _ _)
  | persistTimeout id error =>
    cases h
    exact hinv.marks (Service.failed_marks _ _ _)
  | persist id => exact persist_inv hinv h
  | commitPage p => exact commitPage_inv hinv hok h
  | saveCommand id failure => exact saveCommand_inv hinv h
  | beginCommandTrace failure => exact beginCommandTrace_inv hinv h
  | saveCommandEvidence failure => exact saveCommandEvidence_inv hinv h
  | markStored => exact markStored_inv hinv h

/-! ## What a step does to the entries -/

/-- A step puts a copy, marks entries, or leaves their details as they are. -/
inductive Effect (env : Env) (s : Sys) : Action → Service → Prop
  | put {a : Action} {d : CommandDetail} {victim : String} {service : Service}
    (hfresh : FreshMark s a → s.service.KeepsMark d)
    (h : s.service.put d victim = some service) : Effect env s a service
  | marks {a : Action} {service : Service} (h : Service.Marks s.service service) :
    Effect env s a service
  | cleaned {a : Action} {service : Service} {xs : List (String × Entry)}
    (h : Service.Cleaned xs s.service service) : Effect env s a service

theorem fail_effect (ids : List String) (error : String) :
    Effect env s a (s.fail ids error).service :=
  .marks (Service.marks_foldl (fun service id => Service.failed_marks service id error) ids)

theorem put_effect {d : CommandDetail} {victim : String} {readings : Map Nat Reading}
    (hfresh : FreshMark s a → s.service.KeepsMark d)
    (h : Sys.put { s with readings := readings } d victim = some s') : Effect env s a s'.service := by
  obtain ⟨service, hservice, rfl⟩ := Option.map_eq_some_iff.mp h
  exact .put hfresh hservice

theorem step_effect (h : step env s a = some s') : Effect env s a s'.service := by
  cases a with
  | record c victim =>
    refine put_effect (fun _ => ?_) h
    intro o t copy _ _ _ hcopy
    cases hcopy
  | trace c t victim => exact put_effect (fun hfresh => hfresh) h
  | restore id victim =>
    obtain ⟨d, hd, h⟩ := Option.bind_eq_some_iff.mp h
    exact put_effect (fun hfresh => hfresh d hd) h
  | evidence source v =>
    cases h
    rcases Sys.evidence_cases env s source v with hsame | ⟨reading, hread, -⟩
    · rw [hsame]
      exact .marks .refl
    · rw [hread]
      exact .marks .refl
  | load k available =>
    rcases Sys.load_eq_some h with rfl | ⟨source, v, d₀, d, -, -, rfl⟩
    · exact .marks .refl
    · exact .marks .refl
  | putEvidence k victim =>
    obtain ⟨d, hk, h⟩ := Sys.putEvidence_eq_some h
    exact put_effect (fun hfresh => hfresh d hk) h
  | markHistoryGap source gateway =>
    cases h
    exact .marks (Service.markHistoryGap_marks _ _ _)
  | persistTimeout id error =>
    cases h
    exact .marks (Service.failed_marks _ _ _)
  | persist id =>
    rcases Sys.persist_eq_some h with rfl | ⟨e, -, -, rfl⟩
    · exact .marks .refl
    · exact .marks .refl
  | commitPage p =>
    simp only [step, Sys.commitPage] at h
    split at h
    · cases h
    · cases h
      exact .marks .refl
  | saveCommand id failure =>
    obtain ⟨save, todo, e, -, -, -, ⟨error, rfl⟩ | rfl⟩ := Sys.saveCommand_eq_some h
    · exact fail_effect _ _
    · exact .marks .refl
  | beginCommandTrace failure =>
    obtain ⟨save, id, e, todo, -, -, ⟨error, rfl⟩ | ⟨t, r, -, -, rfl⟩⟩ :=
      Sys.beginCommandTrace_eq_some h
    · exact fail_effect _ _
    · exact .marks .refl
  | saveCommandEvidence failure =>
    obtain ⟨save, p, -, -, -, ⟨error, rfl⟩ | ⟨r, -, rfl⟩⟩ := Sys.saveCommandEvidence_eq_some h
    · exact fail_effect _ _
    · exact .marks .refl
  | markStored =>
    obtain ⟨save, -, -, rfl⟩ := Sys.markStored_eq_some h
    exact .cleaned (Service.foldl_markStored_cleaned _).clearError

/-- An entry that a step leaves in the service grows. -/
theorem step_grows (hinv : Inv pins s) (hfresh : FreshMark s a) (h : step env s a = some s')
    {id : String} {e e' : Entry} (he : s.service.entries.lookup id = some e)
    (he' : s'.service.entries.lookup id = some e') : e.Grows e' := by
  cases step_effect h with
  | put hkeeps hput =>
    obtain ⟨hnewer, hmarked⟩ := Service.put_newer (keyed_of_own hinv.entries) hput he he'
    exact ⟨hnewer, hmarked (hkeeps hfresh)⟩
  | marks hmarks =>
    obtain ⟨e'', he'', hgrows⟩ := hmarks.grows id e he
    obtain rfl : e'' = e' := Option.some.inj (he''.symm.trans he')
    exact hgrows
  | cleaned hcleaned =>
    obtain ⟨e'', he'', hdetail⟩ := hcleaned.kept id e he
    obtain rfl : e'' = e' := Option.some.inj (he''.symm.trans he')
    obtain ⟨detail, revision, dirty⟩ := e''
    cases hdetail
    exact ⟨⟨Nat.le_refl _, fun v hv => ⟨v, hv, Nat.le_refl _⟩⟩, fun hmarked => hmarked⟩

/-! ## Every run -/

theorem run_inv {r : Repository} (hr : RowsAgree pins r) {as : List Action}
    (hok : Meets (step env) (Careful pins) (Sys.initial r) as)
    (h : exec (step env) (Sys.initial r) as = some s) : Inv pins s :=
  meets_invariant (Careful pins) (Inv pins) (fun _ _ _ hinv hok => step_inv hinv hok.1)
    (inv_initial hr) hok h

theorem run_grows {as : List Action} (hinv : Inv pins s)
    (hok : Meets (step env) (Careful pins) s as) (h : exec (step env) s as = some s') {id : String}
    (hkept : Meets (step env) (fun s _ => id ∈ s.service.entries) s as) {e e' : Entry}
    (he : s.service.entries.lookup id = some e) (he' : s'.service.entries.lookup id = some e') :
    e.Grows e' := by
  induction as generalizing s e with
  | nil =>
    cases h
    obtain rfl : e = e' := Option.some.inj (he.symm.trans he')
    exact .refl e
  | cons a as ih =>
    obtain ⟨mid, hmid, h⟩ := exec_cons.mp h
    have hrest := hkept.2 mid hmid
    obtain ⟨e₁, he₁⟩ : ∃ e₁, mid.service.entries.lookup id = some e₁ := by
      cases as with
      | nil =>
        cases h
        exact ⟨e', he'⟩
      | cons b bs => exact Map.mem_iff.mp hrest.1
    exact (step_grows hinv hok.1.2 hmid he he₁).trans
      (ih (step_inv hinv hok.1.1 hmid) (hok.2 mid hmid) h hrest he₁)

/-- `bs` is a part of the run in which the entry is not evicted. -/
theorem evidence_grows {r : Repository} (hr : RowsAgree pins r) {as bs : List Action}
    (hok : Meets (step env) (Careful pins) (Sys.initial r) (as ++ bs))
    (h : exec (step env) (Sys.initial r) as = some s) (h' : exec (step env) s bs = some s')
    {id : String} (hkept : Meets (step env) (fun s _ => id ∈ s.service.entries) s bs)
    {e e' : Entry} (he : s.service.entries.lookup id = some e)
    (he' : s'.service.entries.lookup id = some e') :
    (unfinished e.command.state = false → unfinished e'.command.state = false) ∧
    (e.command.state = .waiting → e'.command.state ≠ .queued) ∧
    (∀ v, e.snapshot = some v → ∃ v', e'.snapshot = some v' ∧ v.revision ≤ v'.revision) ∧
    (e.marked = true → e'.marked = true) ∧
    (e'.dirty = false → Stored s'.repository e'.detail) := by
  obtain ⟨hok₁, hok₂⟩ := meets_append.mp hok
  have hinv := run_inv hr hok₁ h
  have hgrows := run_grows hinv (hok₂ s h) h' hkept he he'
  have hinv' := run_inv hr hok (exec_append.mpr ⟨s, h, h'⟩)
  exact ⟨unfinished_of_progress_le hgrows.progress, not_queued_of_progress_le hgrows.progress,
    hgrows.snapshot, hgrows.marked, hinv'.clean id e' he'⟩

end Runs

namespace Sample

def env : Env := ⟨"manager", fun _ => .ok ()⟩

def repository : Repository := ⟨∅, ∅, ∅, ∅⟩

def requestHash : String := "0123456789abcdef0123456789abcdef0123456789abcdef0123456789abcdef"

def command : PendingCommand :=
  { id := "c", sessionID := "session", groupID := "G", sourceID := "S", port := "COM1"
    kind := "Write", nodeID := "node", request := "01", state := .waiting
    statusCode := statusBadWaitingForResponse, startedAt := 1 }

def target : Target := ⟨"tracked", "gateway", "boot", "COM1", requestHash⟩

def snapshot : TrackedCommand :=
  { schemaVersion := 1, managerInstanceID := "manager", commandID := "c"
    gatewayInstanceID := "gateway", bootID := "boot", portID := "COM1", requestHash := requestHash
    phase := "Executing", attemptCount := 1, sentCount := 1, attempts := [], revision := 1
    updatedAt := "2024-01-01T00:00:00Z" }

def pins : Pins := ⟨fun _ => fixedColumns command, fun _ => target⟩

def traced : List Action := [.trace command { target := target } "", .evidence "S" snapshot]

/-- The entry is marked and then persisted. -/
def markedAndPersisted : List Action :=
  [.markHistoryGap "S" "gateway", .persist "c", .saveCommand "c" none, .beginCommandTrace none,
    .saveCommandEvidence none, .markStored]

theorem careful :
    Meets (step env) (Careful pins) (Sys.initial repository)
      ((traced ++ [.putEvidence 0 ""]) ++ markedAndPersisted) := by
  have hunmarked : (exec (step env) (Sys.initial repository) traced).any
      (fun s => s.service.entries.entries.all fun e => !e.2.marked) = true := by
    decide +kernel
  rw [List.append_assoc]
  refine meets_append.mpr ⟨?_, ?_⟩
  · refine ⟨⟨⟨by decide, rfl, ?_, ?_⟩, ?_⟩, fun _ _ => ⟨⟨trivial, trivial⟩, fun _ _ => trivial⟩⟩
    · intro t ht
      cases ht
      rfl
    · intro t v ht hv
      cases ht
      cases hv
    · intro o t copy ho
      simp [Sys.initial] at ho
  · intro mid hmid
    refine ⟨⟨trivial, ?_⟩, ?_⟩
    · intro d _ o t copy ho ht hgap
      rw [hmid] at hunmarked
      have hfree := List.all_eq_true.mp hunmarked _ (Map.mem_entries.mpr ho)
      simp [Entry.marked, ht, hgap] at hfree
    · intro s _
      show Meets (step env) (Careful pins) s markedAndPersisted
      simp only [markedAndPersisted, Meets, Careful, Promised, FreshMark, and_self, true_and]
      exact fun _ _ _ _ _ _ _ _ _ _ _ _ => trivial

end Sample

/-- A marked entry that is persisted afterwards is stored with its mark. -/
theorem evidence_grows_persisted :
    ∃ s' e', exec (step Sample.env) (Sys.initial Sample.repository)
        ((Sample.traced ++ [.putEvidence 0 ""]) ++ Sample.markedAndPersisted) = some s' ∧
      s'.service.entries.lookup "c" = some e' ∧ e'.snapshot = some Sample.snapshot ∧
      e'.marked = true ∧ e'.dirty = false ∧ Stored s'.repository e'.detail := by
  have hrun : (exec (step Sample.env) (Sys.initial Sample.repository)
      (Sample.traced ++ [.putEvidence 0 ""])).any (fun s =>
        (s.service.entries.lookup "c").isSome &&
        meetsAll (step Sample.env) (fun s _ => decide ("c" ∈ s.service.entries)) s
          Sample.markedAndPersisted &&
        (exec (step Sample.env) s Sample.markedAndPersisted).any fun s' =>
          (s'.service.entries.lookup "c").any fun e' =>
            decide (e'.snapshot = some Sample.snapshot ∧ e'.marked = true ∧ e'.dirty = false)) =
        true := by
    decide +kernel
  obtain ⟨s, hs, hstate⟩ := (Option.any_eq_true _ _).mp hrun
  simp only [Bool.and_eq_true] at hstate
  obtain ⟨⟨hpresent, hkept⟩, hlater⟩ := hstate
  obtain ⟨e, he⟩ := Option.isSome_iff_exists.mp hpresent
  obtain ⟨s', hs', hentry⟩ := (Option.any_eq_true _ _).mp hlater
  obtain ⟨e', he', hstate⟩ := (Option.any_eq_true _ _).mp hentry
  obtain ⟨hsnapshot, hmarked, hclean⟩ := of_decide_eq_true hstate
  have hgrows := evidence_grows ⟨by simp [Sample.repository], by simp [Sample.repository],
    by simp [Sample.repository]⟩ Sample.careful hs hs'
    (meets_of_meetsAll (fun _ _ => of_decide_eq_true) hkept) he he'
  exact ⟨s', e', exec_append.mpr ⟨s, hs, hs'⟩, he', hsnapshot, hmarked, hclean,
    hgrows.2.2.2.2 hclean⟩

/-- Evidence is put that was read before the entry was marked. -/
theorem evidence_loses_mark :
    ∃ s s' e e', exec (step Sample.env) (Sys.initial Sample.repository)
        (Sample.traced ++ [.markHistoryGap "S" "gateway"]) = some s ∧
      step Sample.env s (.putEvidence 0 "") = some s' ∧
      s.service.entries.lookup "c" = some e ∧ s'.service.entries.lookup "c" = some e' ∧
      e.marked = true ∧ e'.marked = false := by
  have hrun : (exec (step Sample.env) (Sys.initial Sample.repository)
      (Sample.traced ++ [.markHistoryGap "S" "gateway"])).any (fun s =>
        (s.service.entries.lookup "c").any Entry.marked &&
        (step Sample.env s (.putEvidence 0 "")).any fun s' =>
          (s'.service.entries.lookup "c").any fun e' => !e'.marked) = true := by
    decide +kernel
  obtain ⟨s, hs, hstate⟩ := (Option.any_eq_true _ _).mp hrun
  obtain ⟨hbefore, hafter⟩ := Bool.and_eq_true_iff.mp hstate
  obtain ⟨e, he, hmarked⟩ := (Option.any_eq_true _ _).mp hbefore
  obtain ⟨s', hs', hafter⟩ := (Option.any_eq_true _ _).mp hafter
  obtain ⟨e', he', hlost⟩ := (Option.any_eq_true _ _).mp hafter
  exact ⟨s, s', e, e', hs, hs', he, he', hmarked, by simpa using hlost⟩

end RcdServer.Audit
