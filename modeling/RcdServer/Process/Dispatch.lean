import RcdServer.Process.Moves

/-!
# A process action is dispatched at most once

At most one call works on a source at a time: it holds the source's execution from its gate to its
end. So nobody else writes its record, and the record says how far it came: an intent that is not
marked was never dispatched. A fence is lifted after its record has become terminal.
-/
namespace RcdServer.Process

open Lib Lib.Run

variable {F : Type}

/-! ## The invariant -/

/-- How far a call has come, in terms of its record and of the actions. -/
def CallOk (records : Records F) (actions : List Key) (c : Call F) : Prop :=
  match c.phase with
  | .admitted r => records.lookup c.key = some r ∧ r.dispatched = false ∧
      r.operation.terminal = false ∧ r.operation.errorCode ≠ interruptedBeforeDispatch
  | .dispatching r => records.lookup c.key = some r ∧ r.dispatched = true ∧
      r.operation.terminal = false ∧ c.key ∉ actions
  | .releasing => ∃ r, records.lookup c.key = some r ∧ r.operation.terminal = true
  | _ => True

theorem CallOk.congr {records records' : Records F} {actions actions' : List Key} {c : Call F}
    (h : CallOk records actions c) (hrecord : records'.lookup c.key = records.lookup c.key)
    (hactions : c.key ∈ actions' → c.key ∈ actions) : CallOk records' actions' c := by
  unfold CallOk at h ⊢
  cases hphase : c.phase with
  | admitted r =>
    simp only [hphase] at h ⊢
    rw [hrecord]
    exact h
  | dispatching r =>
    simp only [hphase] at h ⊢
    rw [hrecord]
    exact ⟨h.1, h.2.1, h.2.2.1, fun hmem => h.2.2.2 (hactions hmem)⟩
  | releasing =>
    simp only [hphase] at h ⊢
    rw [hrecord]
    exact h
  | awaiting r | reconciling r | saving r | ending => trivial

/-- A new record is not that of a call under way. -/
theorem CallOk.insert_new {records : Records F} {actions : List Key} {c : Call F} {key : Key}
    (h : CallOk records actions c) (hnew : records.lookup key = none) (r : Record F) :
    CallOk (records.insert key r) actions c := by
  by_cases hkey : c.key = key
  · unfold CallOk at h ⊢
    cases hphase : c.phase with
    | admitted r' =>
      simp only [hphase] at h
      rw [hkey, hnew] at h
      cases h.1
    | dispatching r' =>
      simp only [hphase] at h
      rw [hkey, hnew] at h
      cases h.1
    | releasing =>
      simp only [hphase] at h
      obtain ⟨r', hr', -⟩ := h
      rw [hkey, hnew] at hr'
      cases hr'
    | awaiting r' | reconciling r' | saving r' | ending => trivial
  · exact h.congr (AList.lookup_insert_ne hkey) fun hmem => hmem

/-- What the holder of the configuration lock relies on. -/
def HolderOk (s : Sys F) : Holder F → Prop
  | .admitting source request _ | .sealing source request _ =>
    request ≠ "" ∧ s.records.lookup (source, request) = none
  | .creating source request _ =>
    request ≠ "" ∧ s.records.lookup (source, request) = none ∧
      s.maintenance.executes source = request ∧ s.maintenance.fence source = request ∧
      ∀ id c, s.calls.lookup id = some c → c.source ≠ source
  | .querying _ request _ => request ≠ ""

/-- The calls, the fences and the actions, apart from how far the calls have come. -/
structure Core (s : Sys F) : Prop where
  calls : ∀ id c, s.calls.lookup id = some c → id < s.next ∧ c.request ≠ "" ∧
    s.maintenance.executes c.source = c.request
  single : ∀ i j c d, s.calls.lookup i = some c → s.calls.lookup j = some d →
    c.source = d.source → i = j
  holder : ∀ x, s.config = some x → HolderOk s x
  named : ∀ key r, s.records.lookup key = some r → key.2 ≠ ""
  /-- A pending record fences its source, once the start has come to it. -/
  fenced : ∀ key r, s.records.lookup key = some r → r.operation.terminal = false →
    (∀ todo, s.restoring = some todo → key ∉ todo) → s.maintenance.fence key.1 = key.2
  acted : ∀ key ∈ s.actions, ∃ r, s.records.lookup key = some r ∧ r.dispatched = true
  nodup : s.actions.Nodup
  restoring : s.restoring.isSome → (∀ id, s.calls.lookup id = none) ∧ s.config = none

structure Inv (s : Sys F) : Prop extends Core s where
  progress : ∀ id c, s.calls.lookup id = some c → CallOk s.records s.actions c

theorem inv_initial : Inv (Sys.initial : Sys F) where
  calls := by simp [Sys.initial]
  single := by simp [Sys.initial]
  holder := by simp [Sys.initial]
  named := by simp [Sys.initial]
  fenced := by simp [Sys.initial]
  acted := by simp [Sys.initial]
  nodup := by simp [Sys.initial]
  restoring := by simp [Sys.initial]
  progress := by simp [Sys.initial]

section Steps

variable {s s' : Sys F} {id : Nat} {c : Call F}

/-! ## Steps of a call -/

theorem lookup_setPhase {phase : Phase F} (id' : Nat) :
    (s.setPhase id c phase).calls.lookup id' =
      if id' = id then some { c with phase := phase } else s.calls.lookup id' :=
  Map.lookup_insert_eq

theorem setPhase_source (hc : s.calls.lookup id = some c) {phase : Phase F} {id' : Nat}
    {c' : Call F} (h : (s.setPhase id c phase).calls.lookup id' = some c') :
    ∃ c'', s.calls.lookup id' = some c'' ∧ c''.source = c'.source ∧ c''.request = c'.request := by
  rw [lookup_setPhase] at h
  split at h
  · rename_i heq
    cases h
    exact ⟨c, heq ▸ hc, rfl, rfl⟩
  · exact ⟨c', h, rfl, rfl⟩

theorem Core.setPhase (hcore : Core s) (hc : s.calls.lookup id = some c) (phase : Phase F) :
    Core (s.setPhase id c phase) := by
  refine ⟨?_, ?_, ?_, hcore.named, hcore.fenced, hcore.acted, hcore.nodup, ?_⟩
  · intro id' c' hc'
    obtain ⟨c'', hc'', hsource, hrequest⟩ := setPhase_source hc hc'
    obtain ⟨hid, hnamed, hexecutes⟩ := hcore.calls id' c'' hc''
    exact ⟨hid, hrequest ▸ hnamed, by rw [← hsource, ← hrequest]; exact hexecutes⟩
  · intro i j ci cj hi hj hsame
    obtain ⟨di, hdi, hsi, -⟩ := setPhase_source hc hi
    obtain ⟨dj, hdj, hsj, -⟩ := setPhase_source hc hj
    exact hcore.single i j di dj hdi hdj (hsi.trans (hsame.trans hsj.symm))
  · intro x hx
    have hholder := hcore.holder x hx
    cases x with
    | admitting | sealing | querying => exact hholder
    | creating source request fixed =>
      obtain ⟨hrequest, hnew, hexecutes, hfence, hothers⟩ := hholder
      refine ⟨hrequest, hnew, hexecutes, hfence, ?_⟩
      intro id' c' hc'
      obtain ⟨c'', hc'', hsame, -⟩ := setPhase_source hc hc'
      exact hsame ▸ hothers id' c'' hc''
  · intro hrestoring
    have hnone := (hcore.restoring hrestoring).1 id
    rw [hc] at hnone
    cases hnone

/-- Another call works on another source, so its record is another one. -/
theorem Core.other_key (hcore : Core s) (hc : s.calls.lookup id = some c) {id' : Nat}
    {c' : Call F} (hc' : s.calls.lookup id' = some c') (hne : id' ≠ id) : c'.key ≠ c.key := by
  intro hkey
  exact hne (hcore.single id' id c' c hc' hc (Prod.mk.inj hkey).1)

/-- No call works on a source without an execution. -/
theorem Core.idle (hcore : Core s) {source : String} (hidle : s.maintenance.executes source = "") :
    ∀ id c, s.calls.lookup id = some c → c.source ≠ source := by
  intro id c hc heq
  obtain ⟨-, hnamed, hexecutes⟩ := hcore.calls id c hc
  rw [heq, hidle] at hexecutes
  exact hnamed hexecutes.symm

/-- The other calls have come as far as before. -/
theorem Inv.setPhase (hinv : Inv s) (hc : s.calls.lookup id = some c) {phase : Phase F}
    (hok : CallOk s.records s.actions { c with phase := phase }) : Inv (s.setPhase id c phase) := by
  refine ⟨hinv.toCore.setPhase hc phase, ?_⟩
  intro id' c' hc'
  rw [lookup_setPhase] at hc'
  split at hc'
  · cases hc'
    exact hok
  · exact hinv.progress id' c' hc'

/-- Records are written, none of them new. -/
theorem Core.records (hcore : Core s) {key : Key} {saved : Record F} {records : Records F}
    (hw : Written s.records records key saved) (hold : s.records.lookup key ≠ none) :
    Core { s with records := records } := by
  have hbefore : ∀ key' r', records.lookup key' = some r' → ∃ r, s.records.lookup key' = some r ∧
      (r'.operation.terminal = false → r.operation.terminal = false) := by
    intro key' r' hr'
    by_cases hkey : key' = key
    · subst hkey
      obtain ⟨r, hr⟩ := Option.ne_none_iff_exists'.mp hold
      refine ⟨r, hr, ?_⟩
      intro hopen
      obtain ⟨r'', hr'', hterminal, -⟩ := hw.grows.kept key' r hr
      obtain rfl : r'' = r' := Option.some.inj (hr''.symm.trans hr')
      by_contra hclosed
      rw [hterminal (by simpa using hclosed)] at hopen
      exact hclosed hopen
    · rw [hw.others key' hkey] at hr'
      exact ⟨r', hr', fun hopen => hopen⟩
  have hnew : ∀ key', s.records.lookup key' = none → records.lookup key' = none := by
    intro key' hnone
    cases hr' : records.lookup key' with
    | none => rfl
    | some r' =>
      obtain ⟨r, hr, -⟩ := hbefore key' r' hr'
      rw [hnone] at hr
      cases hr
  refine ⟨hcore.calls, hcore.single, ?_, ?_, ?_, ?_, hcore.nodup, hcore.restoring⟩
  · intro x hx
    have hholder := hcore.holder x hx
    cases x with
    | admitting source request fixed | sealing source request fixed =>
      exact ⟨hholder.1, hnew _ hholder.2⟩
    | creating source request fixed => exact ⟨hholder.1, hnew _ hholder.2.1, hholder.2.2⟩
    | querying => exact hholder
  · intro key' r' hr'
    obtain ⟨r, hr, -⟩ := hbefore key' r' hr'
    exact hcore.named key' r hr
  · intro key' r' hr' hopen
    obtain ⟨r, hr, hterminal⟩ := hbefore key' r' hr'
    exact hcore.fenced key' r hr (hterminal hopen)
  · intro key' hkey'
    obtain ⟨r, hr, hmark⟩ := hcore.acted key' hkey'
    obtain ⟨r', hr', -, hmark'⟩ := hw.grows.kept key' r hr
    exact ⟨r', hr', hmark' hmark⟩

/-- A call writes its record and moves on. -/
theorem Inv.write (hinv : Inv s) (hc : s.calls.lookup id = some c) {records : Records F}
    {saved : Record F} (hw : Written s.records records c.key saved)
    (hold : s.records.lookup c.key ≠ none) {phase : Phase F}
    (hok : CallOk records s.actions { c with phase := phase }) :
    Inv ({ s with records := records }.setPhase id c phase) := by
  refine ⟨(hinv.toCore.records hw hold).setPhase hc phase, ?_⟩
  intro id' c' hc'
  rw [lookup_setPhase] at hc'
  split at hc'
  · cases hc'
    exact hok
  · rename_i hne
    exact (hinv.progress id' c' hc').congr (hw.others _ (hinv.other_key hc hc' hne)) fun h => h

/-- The steps of `persistProcessRecord`. -/
theorem Inv.persist [DecidableEq F] (hinv : Inv s) (hc : s.calls.lookup id = some c)
    {candidate : Record F} {available : Bool} {next : Record F → Phase F}
    (hnext : ∀ records saved,
      updateProcessOperation s.records c.key candidate = .ok (records, saved) →
      saved.operation.terminal = false →
      CallOk records s.actions { c with phase := next saved }) :
    Inv (s.persist id c candidate available next) := by
  unfold Sys.persist
  split
  · exact hinv.setPhase hc trivial
  · cases hup : updateProcessOperation s.records c.key candidate with
    | error e => exact hinv.setPhase hc trivial
    | ok out =>
      obtain ⟨records, saved⟩ := out
      have hw := written_update hup
      obtain ⟨current, hcurrent, -⟩ := updateProcessOperation_eq_ok hup
      refine hinv.write hc hw (by simp [hcurrent]) ?_
      split
      · exact ⟨saved, hw.stored, ‹_›⟩
      · rename_i hopen
        exact hnext records saved hup (Bool.eq_false_iff.mpr hopen)

theorem markDispatched_inv [DecidableEq F] (hinv : Inv s) (hc : s.calls.lookup id = some c)
    {r : Record F} (hphase : c.phase = .admitted r) {available : Bool} :
    Inv (s.persist id c { r with dispatched := true } available .dispatching) := by
  refine hinv.persist hc ?_
  intro records saved hup hopen
  have hprogress := hinv.progress id c hc
  simp only [CallOk, hphase] at hprogress
  obtain ⟨hrecord, hunmarked, hpending, -⟩ := hprogress
  obtain ⟨current, hcurrent, ⟨hterminal, -, -⟩ | ⟨-, -, hsaved⟩⟩ := updateProcessOperation_eq_ok hup
  · obtain rfl : current = r := Option.some.inj (hcurrent.symm.trans hrecord)
    rw [hpending] at hterminal
    cases hterminal
  · refine ⟨(written_update hup).stored, by simp [hsaved], hopen, ?_⟩
    intro hacted
    obtain ⟨r', hr', hmark⟩ := hinv.acted c.key hacted
    obtain rfl : r' = r := Option.some.inj (hr'.symm.trans hrecord)
    rw [hunmarked] at hmark
    cases hmark

/-- The agent is called for a marked record that is not terminal, and for the first time. -/
theorem act_inv (hinv : Inv s) (hc : s.calls.lookup id = some c) {r : Record F}
    (hphase : c.phase = .dispatching r) :
    Inv { s.setPhase id c (.awaiting r) with actions := c.key :: s.actions } := by
  have hprogress := hinv.progress id c hc
  simp only [CallOk, hphase] at hprogress
  obtain ⟨hrecord, hmark, -, hfirst⟩ := hprogress
  have hmoved : Inv (s.setPhase id c (.awaiting r)) := hinv.setPhase hc trivial
  refine ⟨⟨hmoved.calls, hmoved.single, ?_, hmoved.named, hmoved.fenced, ?_, ?_,
    hmoved.restoring⟩, ?_⟩
  · intro x hx
    have hholder := hmoved.holder x hx
    cases x <;> exact hholder
  · intro key hkey
    rcases List.mem_cons.mp hkey with rfl | hkey
    · exact ⟨r, hrecord, hmark⟩
    · exact hinv.acted key hkey
  · exact List.nodup_cons.mpr ⟨hfirst, hinv.nodup⟩
  · intro id' c' hc'
    have hlookup : (s.setPhase id c (.awaiting r)).calls.lookup id' = some c' := hc'
    rw [lookup_setPhase] at hlookup
    split at hlookup
    · cases hlookup
      trivial
    · rename_i hne
      refine (hinv.progress id' c' hlookup).congr rfl fun hmem => ?_
      rcases List.mem_cons.mp hmem with heq | hmem
      · exact absurd heq (hinv.other_key hc hlookup hne)
      · exact hmem

/-- The fence of a terminal record is not that of a pending one. -/
theorem fence_lifted {records : Records F} {m : Maintenance} {key key' : Key} {r r' : Record F}
    (hr : records.lookup key = some r) (hterminal : r.operation.terminal = true)
    (hr' : records.lookup key' = some r') (hopen : r'.operation.terminal = false)
    (hfence : m.fence key'.1 = key'.2) : (m.releaseFence key.1 key.2).fence key'.1 = key'.2 := by
  rw [Maintenance.releaseFence_fence]
  split
  · rename_i hown
    have hkey : key' = key := by
      refine Prod.ext hown.2 ?_
      rw [← hfence, hown.2, hown.1]
    rw [hkey, hr] at hr'
    cases hr'
    rw [hterminal] at hopen
    cases hopen
  · exact hfence

/-- The fence of a terminal record is lifted. -/
theorem release_inv (hinv : Inv s) (hc : s.calls.lookup id = some c)
    (hphase : c.phase = .releasing) :
    Inv { s.setPhase id c .ending with
      maintenance := s.maintenance.releaseFence c.source c.request } := by
  have hprogress := hinv.progress id c hc
  simp only [CallOk, hphase] at hprogress
  obtain ⟨r, hrecord, hterminal⟩ := hprogress
  have hmoved : Inv (s.setPhase id c .ending) := hinv.setPhase hc trivial
  refine ⟨⟨?_, hmoved.single, ?_, hmoved.named, ?_, hmoved.acted, hmoved.nodup,
    hmoved.restoring⟩, hmoved.progress⟩
  · intro id' c' hc'
    obtain ⟨hid, hnamed, hexecutes⟩ := hmoved.calls id' c' hc'
    exact ⟨hid, hnamed, by rw [Maintenance.releaseFence_executes]; exact hexecutes⟩
  · intro x hx
    have hholder := hmoved.holder x hx
    cases x with
    | admitting | sealing | querying => exact hholder
    | creating source request fixed =>
      obtain ⟨hrequest, hnew, hexecutes, hfence, hothers⟩ := hholder
      have hne : source ≠ c.source := fun heq =>
        hothers id { c with phase := .ending } (by rw [lookup_setPhase, if_pos rfl]) heq.symm
      refine ⟨hrequest, hnew, ?_, ?_, hothers⟩
      · rw [Maintenance.releaseFence_executes]
        exact hexecutes
      · rw [Maintenance.releaseFence_fence, if_neg fun h => hne h.2]
        exact hfence
  · intro key r' hr' hopen htodo
    exact fence_lifted hrecord hterminal hr' hopen (hinv.fenced key r' hr' hopen htodo)

theorem endExecution_inv (hinv : Inv s) (hc : s.calls.lookup id = some c) :
    Inv { s with
      maintenance := s.maintenance.endExecution c.source c.request
      calls := s.calls.erase id } := by
  have hleft : ∀ id' c', (s.calls.erase id).lookup id' = some c' →
      id' ≠ id ∧ s.calls.lookup id' = some c' := by
    intro id' c' hc'
    rw [Map.lookup_erase_eq] at hc'
    split at hc'
    · cases hc'
    · exact ⟨‹_›, hc'⟩
  refine ⟨⟨?_, ?_, ?_, hinv.named, ?_, hinv.acted, hinv.nodup, ?_⟩, ?_⟩
  · intro id' c' hc'
    obtain ⟨hne, hc'⟩ := hleft id' c' hc'
    obtain ⟨hid, hnamed, hexecutes⟩ := hinv.calls id' c' hc'
    have hsource : c'.source ≠ c.source := fun heq => hne (hinv.single id' id c' c hc' hc heq)
    exact ⟨hid, hnamed, by rw [Maintenance.endExecution_executes hsource]; exact hexecutes⟩
  · intro i j ci cj hi hj hsame
    exact hinv.single i j ci cj (hleft i ci hi).2 (hleft j cj hj).2 hsame
  · intro x hx
    have hholder := hinv.holder x hx
    cases x with
    | admitting | sealing | querying => exact hholder
    | creating source request fixed =>
      obtain ⟨hrequest, hnew, hexecutes, hfence, hothers⟩ := hholder
      have hne : source ≠ c.source := fun heq => hothers id c hc heq.symm
      refine ⟨hrequest, hnew, ?_, ?_, fun id' c' hc' => hothers id' c' (hleft id' c' hc').2⟩
      · rw [Maintenance.endExecution_executes hne]
        exact hexecutes
      · rw [Maintenance.endExecution_fence]
        exact hfence
  · intro key r hr hopen htodo
    rw [Maintenance.endExecution_fence]
    exact hinv.fenced key r hr hopen htodo
  · intro hrestoring
    have hnone := (hinv.restoring hrestoring).1 id
    rw [hc] at hnone
    cases hnone
  · intro id' c' hc'
    exact hinv.progress id' c' (hleft id' c' hc').2

/-! ## Steps under the configuration lock -/

/-- The lock is taken or given back. -/
theorem Inv.lock (hinv : Inv s) {config : Option (Holder F)}
    (hholder : ∀ x, config = some x → HolderOk s x) (hfree : s.restoring = none ∨ config = none) :
    Inv { s with config := config } := by
  refine ⟨⟨hinv.calls, hinv.single, ?_, hinv.named, hinv.fenced, hinv.acted, hinv.nodup, ?_⟩,
    hinv.progress⟩
  · intro x hx
    have hok := hholder x hx
    cases x <;> exact hok
  · intro hrestoring
    refine ⟨(hinv.restoring hrestoring).1, ?_⟩
    rcases hfree with hnone | hnone
    · rw [show ({ s with config := config } : Sys F).restoring = none from hnone] at hrestoring
      cases hrestoring
    · exact hnone

theorem Inv.unlock (hinv : Inv s) : Inv { s with config := none } :=
  hinv.lock (by simp) (.inr rfl)

theorem begin_inv (hinv : Inv s) {source request : String} {fixed : F} {m : Maintenance}
    (hconfig : s.config = some (.admitting source request fixed))
    (hm : s.maintenance.beginProcess source request = .ok m) :
    Inv { s with maintenance := m, config := some (.creating source request fixed) } := by
  obtain ⟨hrequest, hnew⟩ := hinv.holder _ hconfig
  obtain ⟨hfence, hidle, hfences, hexecutes⟩ := Maintenance.beginProcess_eq_ok hm
  have hothers := hinv.idle hidle
  refine ⟨⟨?_, hinv.single, ?_, hinv.named, ?_, hinv.acted, hinv.nodup, ?_⟩, hinv.progress⟩
  · intro id c hc
    obtain ⟨hid, hnamed, hexec⟩ := hinv.calls id c hc
    refine ⟨hid, hnamed, ?_⟩
    rw [hexecutes, if_neg (hothers id c hc)]
    exact hexec
  · intro x hx
    cases hx
    exact ⟨hrequest, hnew, by rw [hexecutes, if_pos rfl], by rw [hfences, if_pos rfl], hothers⟩
  · intro key r hr hopen htodo
    have hold := hinv.fenced key r hr hopen htodo
    rw [hfences]
    split
    · rename_i heq
      rw [heq, hfence] at hold
      exact absurd hold.symm (hinv.named key r hr)
    · exact hold
  · intro hrestoring
    have hnone := (hinv.restoring hrestoring).2
    rw [hconfig] at hnone
    cases hnone

/-- A new record. -/
theorem Core.insert_new (hcore : Core s) (hfree : s.config = none) {key : Key} {r : Record F}
    (hnew : s.records.lookup key = none) (hnamed : key.2 ≠ "")
    (hfence : r.operation.terminal = false → s.maintenance.fence key.1 = key.2) :
    Core { s with records := s.records.insert key r } := by
  refine ⟨hcore.calls, hcore.single, by simp [hfree], ?_, ?_, ?_, hcore.nodup, hcore.restoring⟩
  · intro key' r' hr'
    rw [Map.lookup_insert_eq] at hr'
    split at hr'
    · rename_i heq
      exact heq ▸ hnamed
    · exact hcore.named key' r' hr'
  · intro key' r' hr' hopen htodo
    rw [Map.lookup_insert_eq] at hr'
    split at hr'
    · rename_i heq
      cases hr'
      exact heq ▸ hfence hopen
    · exact hcore.fenced key' r' hr' hopen htodo
  · intro key' hkey'
    obtain ⟨r', hr', hmark⟩ := hcore.acted key' hkey'
    obtain ⟨r'', hr'', -, hmark'⟩ := (grows_insert_new hnew r).kept key' r' hr'
    exact ⟨r'', hr'', hmark' hmark⟩

/-- A call begins on a source without one. -/
theorem Inv.addCall (hinv : Inv s) (hserving : s.restoring = none) (hfree : s.config = none)
    (hnamed : c.request ≠ "") (hexecutes : s.maintenance.executes c.source = c.request)
    (hothers : ∀ id c', s.calls.lookup id = some c' → c'.source ≠ c.source)
    (hok : CallOk s.records s.actions c) : Inv (s.addCall c) := by
  have hlookup : ∀ id', (s.addCall c).calls.lookup id' =
      if id' = s.next then some c else s.calls.lookup id' := fun _ => Map.lookup_insert_eq
  refine ⟨⟨?_, ?_, by simp [Sys.addCall, hfree], hinv.named, hinv.fenced, hinv.acted, hinv.nodup,
    by simp [Sys.addCall, hserving]⟩, ?_⟩
  · intro id' c' hc'
    show id' < s.next + 1 ∧ _
    rw [hlookup] at hc'
    split at hc'
    · cases hc'
      exact ⟨by omega, hnamed, hexecutes⟩
    · obtain ⟨hid, hold⟩ := hinv.calls id' c' hc'
      exact ⟨by omega, hold⟩
  · intro i j ci cj hi hj hsame
    rw [hlookup] at hi hj
    split at hi <;> split at hj
    · omega
    · cases hi
      exact absurd hsame.symm (hothers j cj hj)
    · cases hj
      exact absurd hsame (hothers i ci hi)
    · exact hinv.single i j ci cj hi hj hsame
  · intro id' c' hc'
    rw [hlookup] at hc'
    split at hc'
    · cases hc'
      exact hok
    · exact hinv.progress id' c' hc'

/-- A source whose request was never recorded is released. -/
theorem createFailed_inv (hinv : Inv s) {source request : String} {fixed : F}
    (hconfig : s.config = some (.creating source request fixed)) :
    Inv { s with
      maintenance := (s.maintenance.releaseFence source request).endExecution source request
      config := none } := by
  obtain ⟨-, hnew, -, -, hothers⟩ := hinv.holder _ hconfig
  refine ⟨⟨?_, hinv.single, by simp, hinv.named, ?_, hinv.acted, hinv.nodup, ?_⟩, hinv.progress⟩
  · intro id c hc
    obtain ⟨hid, hnamed, hexecutes⟩ := hinv.calls id c hc
    refine ⟨hid, hnamed, ?_⟩
    rw [Maintenance.endExecution_executes (hothers id c hc), Maintenance.releaseFence_executes]
    exact hexecutes
  · intro key r hr hopen htodo
    have hold : s.maintenance.fence key.1 = key.2 := hinv.fenced key r hr hopen htodo
    rw [Maintenance.endExecution_fence, Maintenance.releaseFence_fence]
    split
    · rename_i hown
      have hkey : key = (source, request) := by
        refine Prod.ext hown.2 ?_
        rw [← hold, hown.2, hown.1]
      rw [hkey] at hr
      exact absurd (hnew.symm.trans hr) (by simp)
    · exact hold
  · intro hrestoring
    exact ⟨(hinv.restoring hrestoring).1, rfl⟩

theorem Inv.serving (hinv : Inv s) {x : Holder F} (hconfig : s.config = some x) :
    s.restoring = none := by
  cases hr : s.restoring with
  | none => rfl
  | some todo =>
    have hnone := (hinv.restoring (by simp [hr])).2
    rw [hconfig] at hnone
    cases hnone

theorem create_inv (hinv : Inv s) {source request : String} {fixed : F} {r : Record F}
    (hconfig : s.config = some (.creating source request fixed))
    (hnew : s.records.lookup (source, request) = none)
    (hr : r = { fixed := fixed, operation := { state := .accepted } }) :
    Inv ({ s with
      records := s.records.insert (source, request) r
      config := none }.addCall ⟨source, request, .admitted r⟩) := by
  obtain ⟨hrequest, -, hexecutes, hfence, hothers⟩ := hinv.holder _ hconfig
  have hcreated : Inv { s with
      records := s.records.insert (source, request) r, config := none } :=
    ⟨hinv.unlock.toCore.insert_new rfl hnew hrequest fun _ => hfence,
      fun id c hc => (hinv.progress id c hc).insert_new hnew _⟩
  refine hcreated.addCall (hinv.serving hconfig) rfl hrequest hexecutes hothers ?_
  refine ⟨AList.lookup_insert _, by rw [hr], by rw [hr]; rfl, ?_⟩
  rw [hr]
  show "" ≠ interruptedBeforeDispatch
  decide

theorem createSealed_inv (hinv : Inv s) {source request : String} {fixed : F} {r : Record F}
    (hconfig : s.config = some (.sealing source request fixed))
    (hnew : s.records.lookup (source, request) = none) (hterminal : r.operation.terminal = true) :
    Inv { s with records := s.records.insert (source, request) r, config := none } := by
  obtain ⟨hrequest, -⟩ := hinv.holder _ hconfig
  exact ⟨hinv.unlock.toCore.insert_new rfl hnew hrequest (by simp [hterminal]),
    fun id c hc => (hinv.progress id c hc).insert_new hnew _⟩

theorem tryReconcile_inv (hinv : Inv s) {source request : String} {r : Record F} {m : Maintenance}
    (hconfig : s.config = some (.querying source request r))
    (hm : s.maintenance.tryReconcile source request = some m) :
    Inv ({ s with maintenance := m, config := none }.addCall ⟨source, request, .reconciling r⟩) := by
  obtain ⟨hidle, hfences, hexecutes⟩ := Maintenance.tryReconcile_eq_some hm
  have hothers := hinv.idle hidle
  have hopened : Inv { s with maintenance := m, config := none } := by
    refine ⟨⟨?_, hinv.single, by simp, hinv.named, ?_, hinv.acted, hinv.nodup, ?_⟩, hinv.progress⟩
    · intro id c hc
      obtain ⟨hid, hnamed, hexec⟩ := hinv.calls id c hc
      refine ⟨hid, hnamed, ?_⟩
      rw [hexecutes, if_neg (hothers id c hc)]
      exact hexec
    · intro key r hr hopen htodo
      rw [Maintenance.fence_congr hfences]
      exact hinv.fenced key r hr hopen htodo
    · exact fun hrestoring => ⟨(hinv.restoring hrestoring).1, rfl⟩
  refine hopened.addCall (hinv.serving hconfig) rfl (hinv.holder _ hconfig) ?_ hothers trivial
  show m.executes source = request
  rw [hexecutes, if_pos rfl]

/-! ## Starting -/

theorem mem_pendingKeys {records : Records F} {key : Key} {r : Record F}
    (hr : records.lookup key = some r) (hopen : r.operation.terminal = false) :
    key ∈ pendingKeys records := by
  refine List.mem_map.mpr ⟨⟨key, r⟩, List.mem_filter.mpr ⟨Map.mem_entries.mpr hr, ?_⟩, rfl⟩
  simp [hopen]

theorem crash_inv (hinv : Inv s) :
    Inv { s with
      maintenance := .initial, restoring := some (pendingKeys s.records), config := none
      calls := ∅ } := by
  refine ⟨⟨by simp, by simp, by simp, hinv.named, ?_, hinv.acted, hinv.nodup, by simp⟩, by simp⟩
  intro key r hr hopen htodo
  exact absurd (mem_pendingKeys hr hopen) (htodo _ rfl)

theorem restore_inv (hinv : Inv s) {key : Key} {rest : List Key} {m : Maintenance}
    (hrestoring : s.restoring = some (key :: rest))
    (hm : s.maintenance.restoreFence key.1 key.2 = .ok m) :
    Inv { s with maintenance := m, restoring := some rest } := by
  obtain ⟨hcalls, hconfig⟩ := hinv.restoring (by simp [hrestoring])
  obtain ⟨hown, hfences⟩ := Maintenance.restoreFence_eq_ok hm
  have hbefore : ∀ key' r', s.records.lookup key' = some r' → r'.operation.terminal = false →
      key' ∉ rest → key' ≠ key → s.maintenance.fence key'.1 = key'.2 := by
    intro key' r' hr' hopen hrest hkey
    refine hinv.fenced key' r' hr' hopen ?_
    intro todo htodo
    obtain rfl : key :: rest = todo := Option.some.inj (hrestoring.symm.trans htodo)
    exact List.not_mem_cons_of_ne_of_not_mem hkey hrest
  refine ⟨⟨by simp [hcalls], by simp [hcalls], by simp [hconfig], hinv.named, ?_, hinv.acted,
    hinv.nodup, fun _ => ⟨hcalls, hconfig⟩⟩, by simp [hcalls]⟩
  intro key' r' hr' hopen htodo
  rw [hfences]
  by_cases hkey : key' = key
  · rw [if_pos (by rw [hkey]), hkey]
  · have hold := hbefore key' r' hr' hopen (htodo rest rfl) hkey
    split
    · rename_i hsource
      rw [hsource] at hold
      rcases hown with hnone | hsame
      · exact absurd (hold.symm.trans hnone) (hinv.named key' r' hr')
      · exact hsame.symm.trans hold
    · exact hold

/-- A fence that is lifted belongs to no pending record. -/
theorem Inv.lift (hinv : Inv s) (hcalls : ∀ id, s.calls.lookup id = none) (hconfig : s.config = none)
    {key : Key} {saved : Record F} (hstored : s.records.lookup key = some saved)
    (hterminal : saved.operation.terminal = true) :
    Inv { s with maintenance := s.maintenance.releaseFence key.1 key.2 } := by
  refine ⟨⟨by simp [hcalls], by simp [hcalls], by simp [hconfig], hinv.named, ?_,
    hinv.acted, hinv.nodup, hinv.restoring⟩, by simp [hcalls]⟩
  intro key' r' hr' hopen htodo
  exact fence_lifted hstored hterminal hr' hopen (hinv.fenced key' r' hr' hopen htodo)

theorem restoreFailed_inv [DecidableEq F] (hinv : Inv s) {key : Key} {rest : List Key}
    {candidate saved : Record F} {records : Records F} {m : Maintenance}
    (hrestoring : s.restoring = some (key :: rest))
    (hm : s.maintenance.restoreFence key.1 key.2 = .ok m)
    (hup : updateProcessOperation s.records key candidate = .ok (records, saved)) :
    Inv { s with
      records := records, restoring := some rest
      maintenance := if saved.operation.terminal then m.releaseFence key.1 key.2 else m } := by
  obtain ⟨hcalls, hconfig⟩ := hinv.restoring (by simp [hrestoring])
  obtain ⟨current, hcurrent, -⟩ := updateProcessOperation_eq_ok hup
  have hw := written_update hup
  have hwritten : Inv { s with records := records, maintenance := m, restoring := some rest } :=
    ⟨(restore_inv hinv hrestoring hm).toCore.records hw (by simp [hcurrent]), by simp [hcalls]⟩
  split
  · exact hwritten.lift hcalls hconfig hw.stored ‹_›
  · exact hwritten

/-! ## Other steps -/

/-- Fences and executions stay as they are. -/
theorem Inv.maintained (hinv : Inv s) {m : Maintenance} (hf : m.fences = s.maintenance.fences)
    (he : m.executing = s.maintenance.executing) : Inv { s with maintenance := m } := by
  refine ⟨⟨?_, hinv.single, ?_, hinv.named, ?_, hinv.acted, hinv.nodup, hinv.restoring⟩,
    hinv.progress⟩
  · intro id c hc
    rw [Maintenance.executes_congr he]
    exact hinv.calls id c hc
  · intro x hx
    have hholder := hinv.holder x hx
    cases x with
    | admitting | sealing | querying => exact hholder
    | creating source request fixed =>
      obtain ⟨hrequest, hnew, hexecutes, hfence, hothers⟩ := hholder
      refine ⟨hrequest, hnew, ?_, ?_, hothers⟩
      · rw [Maintenance.executes_congr he]
        exact hexecutes
      · rw [Maintenance.fence_congr hf]
        exact hfence
  · intro key r hr hopen htodo
    rw [Maintenance.fence_congr hf]
    exact hinv.fenced key r hr hopen htodo

theorem serve_inv (hinv : Inv s) (h : s.restoring = some []) :
    Inv { s with restoring := none } := by
  refine ⟨⟨hinv.calls, hinv.single, ?_, hinv.named, ?_, hinv.acted, hinv.nodup, by simp⟩,
    hinv.progress⟩
  · intro x hx
    have hholder := hinv.holder x hx
    cases x <;> exact hholder
  · intro key r hr hopen _
    refine hinv.fenced key r hr hopen ?_
    intro todo htodo
    obtain rfl : [] = todo := Option.some.inj (h.symm.trans htodo)
    exact List.not_mem_nil

theorem step_inv [DecidableEq F] (hinv : Inv s) {a : Action F} (h : step s a = some s') :
    Inv s' := by
  cases step_move h with
  | same => exact hinv
  | unlock => exact hinv.unlock
  | admission hfree hrequest hnew hholder =>
    refine hinv.lock ?_ (.inl hfree)
    intro x hx
    cases hx
    obtain ⟨fixed, rfl | rfl⟩ := hholder
    · exact ⟨hrequest, hnew⟩
    · exact ⟨hrequest, hnew⟩
  | begin hconfig hm => exact begin_inv hinv hconfig hm
  | createFailed hconfig => exact createFailed_inv hinv hconfig
  | create hconfig hnew hr => exact create_inv hinv hconfig hnew hr
  | createSealed hconfig hnew hterminal => exact createSealed_inv hinv hconfig hnew hterminal
  | query hfree hr =>
    refine hinv.lock ?_ (.inl hfree)
    intro x hx
    cases hx
    exact hinv.named _ _ hr
  | tryReconcile hconfig hm => exact tryReconcile_inv hinv hconfig hm
  | restore hrestoring hm => exact restore_inv hinv hrestoring hm
  | restoreFailed hrestoring hr hmark hm hup => exact restoreFailed_inv hinv hrestoring hm hup
  | serve hdone => exact serve_inv hinv hdone
  | crash => exact crash_inv hinv
  | candidate hc => exact hinv.setPhase hc trivial
  | markDispatched hc hphase => exact markDispatched_inv hinv hc hphase
  | act hc hphase => exact act_inv hinv hc hphase
  | save hc hphase => exact hinv.persist hc fun _ _ _ _ => trivial
  | release hc hphase => exact release_inv hinv hc hphase
  | endExecution hc => exact endExecution_inv hinv hc
  | maintained hf he => exact hinv.maintained hf he

end Steps

theorem exec_inv [DecidableEq F] {as : List (Action F)} {s : Sys F}
    (h : exec step Sys.initial as = some s) : Inv s :=
  exec_invariant Inv (fun _ _ _ hinv => step_inv hinv) inv_initial h

end RcdServer.Process
