import RcdServer.Audit.Stored
import RcdServer.Lib.Run

/-!
# Clean entries are stored

Whoever holds the token writes what it has taken, and nobody else writes meanwhile. A taken entry
stays dirty until then, and it is marked clean only under the revision it was taken with, so that
what has been written is what it holds.
-/
namespace RcdServer.Audit

open Lib Lib.Run Routes

variable {pins : Pins}

/-! ## Stored details -/

/-- The command is stored as it is, and its trace is begun. -/
def Begun (r : Repository) (d : CommandDetail) : Prop :=
  r.commands.lookup d.command.id = some d.command ∧
    ∀ t, d.trace = some t → ∃ row, r.traces.lookup d.command.id = some row ∧
      row.target = t.target ∧ (t.historyGap = true → row.historyGap = true)

def Stored (r : Repository) (d : CommandDetail) : Prop :=
  Begun r d ∧ ∀ t v, d.trace = some t → t.snapshot = some v →
    ∃ row, r.traces.lookup d.command.id = some row ∧ v.revision ≤ row.revision

theorem Begun.extends {r r' : Repository} {d : CommandDetail} (h : Begun r d)
    (hext : Extends pins r r') : Begun r' d := by
  refine ⟨by rw [hext.commands]; exact h.1, ?_⟩
  intro t ht
  obtain ⟨row, hrow, htarget, hgap⟩ := h.2 t ht
  obtain ⟨row', hrow', hgrows⟩ := hext.grows _ row hrow
  exact ⟨row', hrow', hgrows.target.trans htarget, fun h => hgrows.historyGap (hgap h)⟩

theorem Stored.extends {r r' : Repository} {d : CommandDetail} (h : Stored r d)
    (hext : Extends pins r r') : Stored r' d := by
  refine ⟨h.1.extends hext, ?_⟩
  intro t v ht hv
  obtain ⟨row, hrow, hle⟩ := h.2 t v ht hv
  obtain ⟨row', hrow', hgrows⟩ := hext.grows _ row hrow
  exact ⟨row', hrow', hle.trans hgrows.revision⟩

/-- Another command is saved. -/
theorem Begun.saveCommand {r : Repository} (hr : RowsAgree pins r) {d : CommandDetail}
    (h : Begun r d) {c : PendingCommand} (hfixed : fixedColumns c = pins.fixed c.id)
    (hne : d.command.id ≠ c.id) : Begun (r.saveCommand c) d := by
  refine ⟨?_, h.2⟩
  rw [lookup_saveCommand hr hfixed, if_neg hne]
  exact h.1

/-! ## The holder of the token -/

/-- A snapshot that is to be stored is on the page, or a newer one of its command. -/
def Covered (page : Option Page) (x : String × Entry) : Prop :=
  ∀ v, x.2.snapshot = some v →
    ∃ p w, page = some p ∧ w ∈ p.values ∧ w.commandID = x.1 ∧ v.revision ≤ w.revision

def StageOk (r : Repository) (taken : List (String × Entry)) (page : Option Page) : Stage → Prop
  | .commands todo => (∀ x ∈ todo, x ∈ taken) ∧ ∀ x ∈ taken, x ∈ todo ∨ Begun r x.2.detail
  | .tracing id e todo => (id, e) ∈ taken ∧ (∀ x ∈ todo, x ∈ taken) ∧
      r.commands.lookup id = some e.command ∧
      ∀ x ∈ taken, x = (id, e) ∨ x ∈ todo ∨ Begun r x.2.detail
  | .evidence => ∀ x ∈ taken, Begun r x.2.detail
  | .finishing => ∀ x ∈ taken, Begun r x.2.detail ∧ (Covered page x → Stored r x.2.detail)

/-- What is taken is dirty, and is what was taken as long as its revision is the same. -/
def Kept (service : Service) (x : String × Entry) : Prop :=
  x.2.revision ≤ service.revision ∧ ∀ e, service.entries.lookup x.1 = some e →
    e.dirty = true ∧ (e.revision = x.2.revision → e = x.2)

structure SaveOk (pins : Pins) (s : Sys) (save : Save) : Prop where
  own : ∀ x ∈ save.taken, Own pins x.1 x.2.detail
  unique : ∀ x ∈ save.taken, ∀ y ∈ save.taken, x.1 = y.1 → x = y
  kept : ∀ x ∈ save.taken, Kept s.service x
  page : ∀ p, save.page = some p → ∀ x ∈ save.taken, x.2.command.sourceID = p.source ∧
    ∀ t, x.2.trace = some t → t.target.gatewayInstanceID = p.gateway
  covered : save.covering = false → ∀ x ∈ save.taken, Covered save.page x
  stage : StageOk s.repository save.taken save.page save.stage

theorem SaveOk.covered_of_covers {s : Sys} {save : Save} (hok : SaveOk pins s save)
    {x : String × Entry} (hx : x ∈ save.taken) (h : save.covers x.1 x.2 = true) :
    Covered save.page x := by
  cases hcovering : save.covering with
  | false => exact hok.covered hcovering x hx
  | true =>
    intro v hv
    have hsnapshot : x.2.trace.bind (·.snapshot) = some v := hv
    simp only [Save.covers, hsnapshot, hcovering, Bool.not_true, Bool.false_or] at h
    cases hpage : save.page with
    | none => simp [hpage] at h
    | some p =>
      obtain ⟨w, hw, hid, hle⟩ : ∃ w ∈ p.values, w.commandID = x.1 ∧ v.revision ≤ w.revision := by
        simpa [hpage] using h
      exact ⟨p, w, rfl, hw, hid, hle⟩

/-! ## The invariant -/

structure Inv (pins : Pins) (s : Sys) : Prop where
  rows : RowsAgree pins s.repository
  entries : s.service.All (Own pins)
  revision : ∀ id e, s.service.entries.lookup id = some e → e.revision ≤ s.service.revision
  readings : ∀ k d, s.readings.lookup k = some (.putting d) → Agrees pins d
  clean : ∀ id e, s.service.entries.lookup id = some e → e.dirty = false →
    Stored s.repository e.detail
  save : ∀ save, s.io = some save → SaveOk pins s save

theorem inv_initial {r : Repository} (hr : RowsAgree pins r) : Inv pins (Sys.initial r) where
  rows := hr
  entries := by simp [Service.All, Sys.initial]
  revision := by simp [Sys.initial]
  readings := by simp [Sys.initial]
  clean := by simp [Sys.initial]
  save := by simp [Sys.initial]

section Steps

variable {s s' : Sys}

theorem Kept.moved {service service' : Service} {x : String × Entry} (h : Kept service x)
    (hmoved : service.Moved service') : Kept service' x := by
  refine ⟨h.1.trans hmoved.revision, fun e he => ?_⟩
  rcases hmoved.entries x.1 e he with hsame | ⟨hdirty, hlt, -⟩
  · exact h.2 e hsame
  · refine ⟨hdirty, fun hrevision => ?_⟩
    have := h.1
    omega

/-- The service moves on. -/
theorem Inv.moved (hinv : Inv pins s) {service : Service} (hmoved : s.service.Moved service)
    (hall : service.All (Own pins)) : Inv pins { s with service := service } := by
  refine ⟨hinv.rows, hall, ?_, hinv.readings, ?_, ?_⟩
  · intro id e he
    rcases hmoved.entries id e he with hsame | ⟨-, -, hle⟩
    · exact (hinv.revision id e hsame).trans hmoved.revision
    · exact hle
  · intro id e he hclean
    rcases hmoved.entries id e he with hsame | ⟨hdirty, -⟩
    · exact hinv.clean id e hsame hclean
    · rw [hclean] at hdirty
      cases hdirty
  · intro save hsave
    have hok := hinv.save save hsave
    exact ⟨hok.own, hok.unique, fun x hx => (hok.kept x hx).moved hmoved, hok.page, hok.covered,
      hok.stage⟩

theorem Inv.marks (hinv : Inv pins s) {service : Service} (h : Service.Marks s.service service) :
    Inv pins { s with service := service } :=
  hinv.moved h.moved (h.all own_unmarking hinv.entries)

theorem Inv.released (hinv : Inv pins s) : Inv pins { s with io := none } :=
  ⟨hinv.rows, hinv.entries, hinv.revision, hinv.readings, hinv.clean, by simp⟩

theorem fail_inv (hinv : Inv pins s) (ids : List String) (error : String) :
    Inv pins (s.fail ids error) := by
  have hmarks : Service.Marks s.service (s.fail ids error).service :=
    Service.marks_foldl (fun service id => Service.failed_marks service id error) ids
  exact (hinv.marks hmarks).released

theorem put_inv (hinv : Inv pins s) {d : CommandDetail} (hd : Agrees pins d) {victim : String}
    (h : s.put d victim = some s') : Inv pins s' := by
  obtain ⟨service, hservice, rfl⟩ := Option.map_eq_some_iff.mp h
  exact hinv.moved (Service.put_moved hservice)
    (Service.put_all own_merging hinv.entries ⟨rfl, hd⟩ hservice)

/-! ## Readings -/

theorem Inv.read (hinv : Inv pins s) {readings : Map Nat Reading} {next : Nat}
    (h : ∀ k d, readings.lookup k = some (.putting d) → Agrees pins d) :
    Inv pins { s with readings := readings, next := next } := by
  refine ⟨hinv.rows, hinv.entries, hinv.revision, h, hinv.clean, fun save hsave => ?_⟩
  have hok := hinv.save save hsave
  exact ⟨hok.own, hok.unique, hok.kept, hok.page, hok.covered, hok.stage⟩

theorem evidenced_agrees {env : Env} {source : String} {v : TrackedCommand} {d d' : CommandDetail}
    (hd : Own pins v.commandID d) (h : Sys.evidenced env source v d = some d') : Agrees pins d' := by
  unfold Sys.evidenced at h
  cases ht : d.trace with
  | none => simp [ht] at h
  | some t =>
    simp only [ht] at h
    split at h
    · cases h
    split at h
    · cases h
    cases h
    refine ⟨hd.2.id, hd.2.fixed, ?_, ?_⟩
    · intro t' ht'
      cases ht'
      exact hd.2.target t ht
    · intro t' v' ht' hv'
      cases ht'
      cases hv'
      exact hd.1.symm

theorem insert_reading (hinv : Inv pins s) {k : Nat} {reading : Reading}
    (h : ∀ d, reading = .putting d → Agrees pins d) {k' : Nat} {d : CommandDetail}
    (hd : (s.readings.insert k reading).lookup k' = some (.putting d)) : Agrees pins d := by
  rw [Map.lookup_insert_eq] at hd
  split at hd
  · exact h d (Option.some.inj hd)
  · exact hinv.readings k' d hd

theorem erase_reading (hinv : Inv pins s) {k k' : Nat} {d : CommandDetail}
    (hd : (s.readings.erase k).lookup k' = some (.putting d)) : Agrees pins d := by
  rw [Map.lookup_erase_eq] at hd
  split at hd
  · cases hd
  · exact hinv.readings k' d hd

theorem evidence_inv (hinv : Inv pins s) (env : Env) (source : String) (v : TrackedCommand) :
    Inv pins (s.evidence env source v) := by
  rcases Sys.evidence_cases env s source v with hsame | ⟨reading, hread, hputting⟩
  · rw [hsame]
    exact hinv
  · rw [hread]
    refine hinv.read fun k d hd => insert_reading hinv ?_ hd
    intro d hd
    obtain ⟨e, he, hevidenced⟩ := hputting d hd
    exact evidenced_agrees (hinv.entries _ e he) hevidenced

theorem load_inv (hinv : Inv pins s) {env : Env} {k : Nat} {available : Bool}
    (h : s.load env k available = some s') : Inv pins s' := by
  rcases Sys.load_eq_some h with rfl | ⟨source, v, d₀, d, hd₀, hevidenced, rfl⟩
  · exact hinv.read fun _ _ hd => erase_reading hinv hd
  · refine hinv.read fun k d' hd' => insert_reading hinv ?_ hd'
    intro d' hd'
    cases hd'
    exact evidenced_agrees (commandDetail_agrees hinv.rows hd₀) hevidenced

theorem putEvidence_inv (hinv : Inv pins s) {k : Nat} {victim : String}
    (h : s.putEvidence k victim = some s') : Inv pins s' := by
  obtain ⟨d, hk, h⟩ := Sys.putEvidence_eq_some h
  exact put_inv (hinv.read fun _ _ hd => erase_reading hinv hd) (hinv.readings k d hk) h

/-! ## Taking -/

/-- The holder goes on when a command and its trace are stored. -/
theorem proceed_ok {save : Save} (hok : ∀ stage, StageOk s.repository save.taken save.page stage →
      SaveOk pins s { save with stage := stage }) {todo : List (String × Entry)}
    (htodo : ∀ x ∈ todo, x ∈ save.taken)
    (hbegun : ∀ x ∈ save.taken, x ∈ todo ∨ Begun s.repository x.2.detail) :
    SaveOk pins s (Sys.proceed save todo) := by
  refine hok _ ?_
  cases todo with
  | cons x rest => exact ⟨htodo, hbegun⟩
  | nil =>
    have hall : ∀ x ∈ save.taken, Begun s.repository x.2.detail := fun x hx =>
      (hbegun x hx).resolve_left List.not_mem_nil
    simp only [List.isEmpty_nil, if_true]
    cases hpage : save.page with
    | some p => exact hall
    | none =>
      refine fun x hx => ⟨hall x hx, fun hcovered => ⟨hall x hx, fun t v ht hv => ?_⟩⟩
      obtain ⟨p, w, hp, -⟩ := hcovered v (Option.bind_eq_some_iff.mpr ⟨t, ht, hv⟩)
      cases hp

theorem kept_taken (hinv : Inv pins s) {id : String} {e : Entry}
    (he : s.service.entries.lookup id = some e) (hdirty : e.dirty = true) :
    Kept s.service (id, e) := by
  refine ⟨hinv.revision id e he, fun e' he' => ?_⟩
  obtain rfl : e = e' := Option.some.inj (he.symm.trans he')
  exact ⟨hdirty, fun _ => rfl⟩

theorem Inv.taken (hinv : Inv pins s) {save : Save} (hok : SaveOk pins s save) :
    Inv pins { s with io := some save } := by
  refine ⟨hinv.rows, hinv.entries, hinv.revision, hinv.readings, hinv.clean, fun save' hsave => ?_⟩
  cases hsave
  exact ⟨hok.own, hok.unique, hok.kept, hok.page, hok.covered, hok.stage⟩

theorem persist_inv (hinv : Inv pins s) {id : String} (h : s.persist id = some s') :
    Inv pins s' := by
  rcases Sys.persist_eq_some h with rfl | ⟨e, he, hdirty, rfl⟩
  · exact hinv
  have hown := hinv.entries id e he
  refine hinv.taken ⟨?_, ?_, ?_, ?_, ?_, ?_⟩
  · simpa using hown
  · simp
  · simpa using kept_taken hinv he hdirty
  · intro p hp x hx
    obtain rfl : x = (id, e) := List.mem_singleton.mp hx
    obtain ⟨t, ht, hp⟩ := Option.bind_eq_some_iff.mp hp
    obtain ⟨v, hv, rfl⟩ := Option.map_eq_some_iff.mp hp
    refine ⟨rfl, fun t' ht' => ?_⟩
    obtain rfl : t = t' := Option.some.inj (ht.symm.trans ht')
    rfl
  · intro _ x hx v hv
    obtain rfl : x = (id, e) := List.mem_singleton.mp hx
    obtain ⟨t, ht, hv⟩ := Option.bind_eq_some_iff.mp hv
    refine ⟨⟨e.command.sourceID, t.target.gatewayInstanceID, [v], none, t.historyGap⟩, v, ?_,
      List.mem_singleton.mpr rfl, ?_, Nat.le_refl _⟩
    · simp [show e.trace = some t from ht, hv]
    · rw [hown.2.snapshot t v ht hv]
      exact hown.1
  · exact ⟨fun x hx => hx, fun x hx => .inl hx⟩

theorem commitPage_inv (hinv : Inv pins s) {p : Page}
    (hgateway : ∀ v ∈ p.values, ∀ e t, s.service.entries.lookup v.commandID = some e →
      e.command.sourceID = p.source → e.trace = some t → t.target.gatewayInstanceID = p.gateway)
    (h : s.commitPage p = some s') : Inv pins s' := by
  unfold Sys.commitPage at h
  split at h
  · cases h
  cases h
  generalize htaken : ((s.service.entries.entries.map fun e => (e.1, e.2)).filter fun e =>
    p.values.any (·.commandID == e.1) && e.2.command.sourceID == p.source && e.2.dirty) = taken
  have hmem : ∀ x ∈ taken, s.service.entries.lookup x.1 = some x.2 ∧
      (∃ v ∈ p.values, v.commandID = x.1) ∧ x.2.command.sourceID = p.source ∧
      x.2.dirty = true := by
    intro x hx
    rw [← htaken] at hx
    obtain ⟨hentry, hcondition⟩ := List.mem_filter.mp hx
    obtain ⟨e, he, rfl⟩ := List.mem_map.mp hentry
    simp only [Bool.and_eq_true, List.any_eq_true, beq_iff_eq] at hcondition
    exact ⟨Map.mem_entries.mp he, hcondition.1.1, hcondition.1.2, hcondition.2⟩
  refine hinv.taken (proceed_ok ?_ (fun x hx => hx) fun x hx => .inl hx)
  intro stage hstage
  refine ⟨?_, ?_, ?_, ?_, ?_, hstage⟩
  · exact fun x hx => hinv.entries x.1 x.2 (hmem x hx).1
  · intro x hx y hy hsame
    refine Prod.ext hsame ?_
    have hx' := (hmem x hx).1
    rw [hsame, (hmem y hy).1] at hx'
    exact (Option.some.inj hx').symm
  · exact fun x hx => kept_taken hinv (hmem x hx).1 (hmem x hx).2.2.2
  · intro p' hp' x hx
    cases hp'
    obtain ⟨hentry, ⟨v, hv, hid⟩, hsource, -⟩ := hmem x hx
    exact ⟨hsource, fun t ht => hgateway v hv x.2 t (by rw [hid]; exact hentry) hsource ht⟩
  · intro hcovering
    cases hcovering

/-! ## Writing -/

/-- The repository changes under the holder of the token. -/
theorem Inv.written (hinv : Inv pins s) {r : Repository} {save : Save} (hrows : RowsAgree pins r)
    (hclean : ∀ id e, s.service.entries.lookup id = some e → e.dirty = false → Stored r e.detail)
    (hok : SaveOk pins { s with repository := r } save) :
    Inv pins { s with repository := r, io := some save } := by
  refine ⟨hrows, hinv.entries, hinv.revision, hinv.readings, hclean, fun save' hsave => ?_⟩
  cases hsave
  exact ⟨hok.own, hok.unique, hok.kept, hok.page, hok.covered, hok.stage⟩

/-- The holder stands at another stage over another repository. -/
theorem SaveOk.at_stage {save : Save} (hok : SaveOk pins s save) {r : Repository} {stage : Stage}
    (hstage : StageOk r save.taken save.page stage) :
    SaveOk pins { s with repository := r } { save with stage := stage } :=
  ⟨hok.own, hok.unique, hok.kept, hok.page, hok.covered, hstage⟩

theorem saveCommand_inv (hinv : Inv pins s) {id : String} {failure : Option String}
    (h : s.saveCommand id failure = some s') : Inv pins s' := by
  obtain ⟨save, todo, e, hio, hstage, hmem, ⟨error, rfl⟩ | rfl⟩ := Sys.saveCommand_eq_some h
  · exact fail_inv hinv _ _
  have hok := hinv.save save hio
  obtain ⟨htodo, hbegun⟩ : StageOk s.repository save.taken save.page (.commands todo) :=
    hstage ▸ hok.stage
  have hx : (id, e) ∈ save.taken := htodo _ hmem
  have hown := hok.own _ hx
  have hfixed : fixedColumns e.command = pins.fixed e.command.id := hown.2.fixed
  have hid : e.command.id = id := hown.1
  have hsaved : (s.repository.saveCommand e.command).commands.lookup id = some e.command := by
    rw [lookup_saveCommand hinv.rows hfixed, if_pos hid.symm]
  -- The others are stored as before.
  have hothers : ∀ x ∈ save.taken, x = (id, e) ∨ x ∈ todo.filter (·.1 != id) ∨
      Begun (s.repository.saveCommand e.command) x.2.detail := by
    intro x hxt
    by_cases hsame : x.1 = id
    · exact .inl (hok.unique x hxt _ hx hsame)
    · rcases hbegun x hxt with hleft | hdone
      · exact .inr (.inl (List.mem_filter.mpr ⟨hleft, by simpa using hsame⟩))
      · refine .inr (.inr (hdone.saveCommand hinv.rows hfixed ?_))
        rw [(hok.own x hxt).1, hid]
        exact hsame
  have hrest : ∀ x ∈ todo.filter (·.1 != id), x ∈ save.taken := fun x hx =>
    htodo x (List.mem_of_mem_filter hx)
  refine hinv.written (saveCommand_agrees hinv.rows hown.2.id hfixed) ?_ ?_
  · intro id' e' he' hclean
    have hstored := hinv.clean id' e' he' hclean
    have hother : e'.command.id ≠ e.command.id := by
      rw [show e'.command.id = id' from (hinv.entries id' e' he').1, hid]
      rintro rfl
      have hdirty := ((hok.kept _ hx).2 e' he').1
      rw [hclean] at hdirty
      cases hdirty
    exact ⟨hstored.1.saveCommand hinv.rows hfixed hother, hstored.2⟩
  · split
    · exact hok.at_stage ⟨hx, hrest, hsaved, hothers⟩
    · rename_i hnone
      have htrace : e.trace = none := by simpa using hnone
      refine proceed_ok (fun stage hstage => hok.at_stage hstage) hrest ?_
      intro x hxt
      rcases hothers x hxt with rfl | hleft | hdone
      · refine .inr ⟨?_, fun t ht => ?_⟩
        · show _ = some e.command
          rw [show (id, e).2.detail.command.id = id from hid]
          exact hsaved
        · rw [show (id, e).2.detail.trace = none from htrace] at ht
          cases ht
      · exact .inl hleft
      · exact .inr hdone

theorem beginCommandTrace_inv (hinv : Inv pins s) {failure : Option String}
    (h : s.beginCommandTrace failure = some s') : Inv pins s' := by
  obtain ⟨save, id, e, todo, hio, hstage, ⟨error, rfl⟩ | ⟨t, r, ht, hbegin, rfl⟩⟩ :=
    Sys.beginCommandTrace_eq_some h
  · exact fail_inv hinv _ _
  have hok := hinv.save save hio
  obtain ⟨hx, htodo, hsaved, hothers⟩ :
      StageOk s.repository save.taken save.page (.tracing id e todo) := hstage ▸ hok.stage
  have hown := hok.own _ hx
  have hid : e.command.id = id := hown.1
  have htarget : t.target = pins.target id := by
    rw [← hid]
    exact hown.2.target t ht
  obtain ⟨hext, row, hrow, hsame, hgap⟩ := beginCommandTrace_eq_ok hinv.rows htarget hbegin
  refine hinv.written (hext.agrees hinv.rows)
    (fun id e he hclean => (hinv.clean id e he hclean).extends hext) ?_
  refine proceed_ok (fun stage hstage => hok.at_stage hstage) htodo ?_
  intro x hxt
  rcases hothers x hxt with rfl | hleft | hdone
  · refine .inr ⟨?_, fun t' ht' => ?_⟩
    · rw [show (id, e).2.detail.command.id = id from hid, hext.commands]
      exact hsaved
    · obtain rfl : t = t' := Option.some.inj (ht.symm.trans ht')
      rw [show (id, e).2.detail.command.id = id from hid]
      exact ⟨row, hrow, hsame, hgap⟩
  · exact .inl hleft
  · exact .inr (hdone.extends hext)

theorem saveCommandEvidence_inv (hinv : Inv pins s) {env : Env} {failure : Option String}
    (h : s.saveCommandEvidence env failure = some s') : Inv pins s' := by
  obtain ⟨save, p, hio, hstage, hpage, ⟨error, rfl⟩ | ⟨r, hsave, rfl⟩⟩ :=
    Sys.saveCommandEvidence_eq_some h
  · exact fail_inv hinv _ _
  have hok := hinv.save save hio
  have hbegun : StageOk s.repository save.taken save.page .evidence := hstage ▸ hok.stage
  obtain ⟨hext, hvalues⟩ : Extends pins s.repository r ∧ _ := saveCommandEvidence_eq_ok hsave
  refine hinv.written (hext.agrees hinv.rows)
    (fun id e he hclean => (hinv.clean id e he hclean).extends hext) (hok.at_stage ?_)
  intro x hx
  refine ⟨(hbegun x hx).extends hext, fun hcovered =>
    ⟨(hbegun x hx).extends hext, fun t v ht hv => ?_⟩⟩
  obtain ⟨p', w, hp', hw, hid, hle⟩ := hcovered v (Option.bind_eq_some_iff.mpr ⟨t, ht, hv⟩)
  obtain rfl : p = p' := Option.some.inj (hpage.symm.trans hp')
  obtain ⟨hcommand, htraces⟩ := hbegun x hx
  obtain ⟨row, hrow, htarget, -⟩ := htraces t ht
  obtain ⟨hsource, hgateway⟩ := hok.page p hpage x hx
  rw [(hok.own x hx).1, ← hid] at hcommand hrow ⊢
  obtain ⟨row', hrow', hle'⟩ := hvalues w hw row _ hrow hcommand
    (by rw [htarget]; exact hgateway t ht) hsource
  exact ⟨row', hrow', hle.trans hle'⟩

theorem markStored_inv (hinv : Inv pins s) (h : s.markStored = some s') : Inv pins s' := by
  obtain ⟨save, hio, hstage, rfl⟩ := Sys.markStored_eq_some h
  have hok := hinv.save save hio
  have hprogress : StageOk s.repository save.taken save.page .finishing := hstage ▸ hok.stage
  have hcleaned := (Service.foldl_markStored_cleaned (s := s.service)
    (save.taken.filter fun e => save.covers e.1 e.2)).clearError
  refine ⟨hinv.rows, ?_, ?_, hinv.readings, ?_, by simp⟩
  · intro id e' he'
    obtain ⟨e, he, hdetail, -⟩ := hcleaned.origin id e' he'
    rw [hdetail]
    exact hinv.entries id e he
  · intro id e' he'
    obtain ⟨e, he, -, hrevision, -⟩ := hcleaned.origin id e' he'
    rw [hrevision, hcleaned.revision]
    exact hinv.revision id e he
  · intro id e' he' hclean
    obtain ⟨e, he, hdetail, -, hdirt⟩ := hcleaned.origin id e' he'
    rw [hdetail]
    rcases hdirt hclean with hclean | ⟨x, hx, rfl, hrevision⟩
    · exact hinv.clean id e he hclean
    · obtain ⟨hx, hcovers⟩ := List.mem_filter.mp hx
      obtain rfl : e = x.2 := ((hok.kept x hx).2 e he).2 hrevision.symm
      exact (hprogress x hx).2 (hok.covered_of_covers hx hcovers)

end Steps

end RcdServer.Audit
