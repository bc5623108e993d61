import RcdServer.Audit.Growth

/-!
# What the repository stores

The source of a command, its other fixed columns and the target of its trace belong to its id:
`Pins` names them. Where every copy agrees with them, a saved command is stored with all its
columns, a trace is begun under its own target, and a page stores the snapshots of its gateway
unless newer ones are there.
-/
namespace RcdServer.Audit

open Lib Routes

/-! ## What belongs to an id -/

structure Fixed where
  sessionID : String
  groupID : String
  sourceID : String
  port : String
  kind : String
  nodeID : String
  request : String
  startedAt : Time
  deriving DecidableEq

def fixedColumns (c : PendingCommand) : Fixed :=
  ⟨c.sessionID, c.groupID, c.sourceID, c.port, c.kind, c.nodeID, c.request, c.startedAt⟩

structure Pins where
  fixed : String → Fixed
  target : String → Target

structure Agrees (pins : Pins) (d : CommandDetail) : Prop where
  id : d.command.id ≠ ""
  fixed : fixedColumns d.command = pins.fixed d.command.id
  target : ∀ t, d.trace = some t → t.target = pins.target d.command.id
  snapshot : ∀ t v, d.trace = some t → t.snapshot = some v → v.commandID = d.command.id

structure RowsAgree (pins : Pins) (r : Repository) : Prop where
  commands : ∀ id c, r.commands.lookup id = some c →
    c.id = id ∧ id ≠ "" ∧ fixedColumns c = pins.fixed id
  targets : ∀ id row, r.traces.lookup id = some row → row.target = pins.target id
  snapshots : ∀ id row v, r.traces.lookup id = some row → row.snapshot = some v → v.commandID = id

variable {pins : Pins}

/-- The details of an entry with its id. -/
def Own (pins : Pins) (id : String) (d : CommandDetail) : Prop := d.command.id = id ∧ Agrees pins d

theorem own_unmarking : Service.Unmarking (Own pins) := by
  intro id d h
  refine ⟨h.1, h.2.id, h.2.fixed, ?_, ?_⟩
  · intro t ht
    obtain ⟨t₀, ht₀, rfl⟩ := Option.map_eq_some_iff.mp ht
    exact h.2.target t₀ ht₀
  · intro t v ht hv
    obtain ⟨t₀, ht₀, rfl⟩ := Option.map_eq_some_iff.mp ht
    exact h.2.snapshot t₀ v ht₀ hv

theorem keyed_of_own {s : Service} (h : s.All (Own pins)) : s.Keyed := by
  intro id e he
  have hid : e.command.id = id := (h id e he).1
  exact ⟨hid, hid ▸ (h id e he).2.id⟩

theorem own_merging : Service.Merging (Own pins) := by
  intro s d hall hd
  have hid : (s.merge d).command.id = d.command.id := Service.merge_id (keyed_of_own hall)
  have htrace : ∀ t, (s.merge d).trace = some t → ∃ t₀, t.target = t₀.target ∧
      t.snapshot = t₀.snapshot ∧ (d.trace = some t₀ ∨
        ∃ o, s.entries.lookup d.command.id = some o ∧ o.trace = some t₀) := by
    intro t ht
    simp only [Service.merge] at ht
    split at ht
    · obtain ⟨t₀, ht₀, rfl⟩ := Option.map_eq_some_iff.mp ht
      exact ⟨t₀, rfl, rfl, mergeTrace_choice ht₀⟩
    · exact ⟨t, rfl, rfl, mergeTrace_choice ht⟩
  refine ⟨rfl, by rw [hid]; exact hd.2.id, ?_, ?_, ?_⟩
  · rcases mergeCommand_choice (s.entries.lookup d.command.id) d.command with h | ⟨o, ho, h⟩
    · rw [show (s.merge d).command = d.command from h]
      exact hd.2.fixed
    · rw [show (s.merge d).command = o.command from h]
      exact (hall _ o ho).2.fixed
  · intro t ht
    obtain ⟨t₀, htarget, -, ht₀ | ⟨o, ho, ht₀⟩⟩ := htrace t ht
    · rw [htarget, hid]
      exact hd.2.target t₀ ht₀
    · rw [htarget, hid, ← (hall _ o ho).1]
      exact (hall _ o ho).2.target t₀ ht₀
  · intro t v ht hv
    obtain ⟨t₀, -, hsnapshot, ht₀ | ⟨o, ho, ht₀⟩⟩ := htrace t ht
    · rw [hid]
      exact hd.2.snapshot t₀ v ht₀ (hsnapshot ▸ hv)
    · rw [hid, ← (hall _ o ho).1]
      exact (hall _ o ho).2.snapshot t₀ v ht₀ (hsnapshot ▸ hv)

/-! ## The repository -/

theorem commandDetail_agrees {r : Repository} (hr : RowsAgree pins r) {id : String}
    {d : CommandDetail} (h : r.commandDetail id = some d) : Own pins id d := by
  obtain ⟨c, hc, rfl⟩ := Option.map_eq_some_iff.mp h
  obtain ⟨hid, hnamed, hfixed⟩ := hr.commands id c hc
  refine ⟨hid, by rw [hid]; exact hnamed, by rw [hid]; exact hfixed, ?_, ?_⟩
  · intro t ht
    obtain ⟨row, hrow, rfl⟩ := Option.map_eq_some_iff.mp ht
    rw [hid]
    exact hr.targets id row hrow
  · intro t v ht hv
    obtain ⟨row, hrow, rfl⟩ := Option.map_eq_some_iff.mp ht
    rw [hid]
    exact hr.snapshots id row v hrow hv

theorem row_updated {row c : PendingCommand} (hid : row.id = c.id)
    (hfixed : fixedColumns row = fixedColumns c) :
    { row with
      state := c.state, statusCode := c.statusCode, error := c.error, response := c.response
      finishedAt := c.finishedAt } = c := by
  cases row
  cases c
  simp_all [fixedColumns]

/-- Of a command that agrees with its row, all columns are saved. -/
theorem lookup_saveCommand {r : Repository} (hr : RowsAgree pins r) {c : PendingCommand}
    (hfixed : fixedColumns c = pins.fixed c.id) (id : String) :
    (r.saveCommand c).commands.lookup id = if id = c.id then some c else r.commands.lookup id := by
  unfold Repository.saveCommand
  rw [Map.lookup_insert_eq]
  split
  · cases hrow : r.commands.lookup c.id with
    | none => rfl
    | some row =>
      obtain ⟨hid, -, hsame⟩ := hr.commands _ row hrow
      exact congrArg some (row_updated hid (hsame.trans hfixed.symm))
  · rfl

/-- Traces keep their targets, and their snapshots and marks grow. -/
structure TraceRow.Grows (row row' : TraceRow) : Prop where
  target : row'.target = row.target
  revision : row.revision ≤ row'.revision
  historyGap : row.historyGap = true → row'.historyGap = true

theorem TraceRow.Grows.refl (row : TraceRow) : row.Grows row :=
  ⟨rfl, Nat.le_refl _, fun h => h⟩

theorem TraceRow.Grows.trans {a b c : TraceRow} (h₁ : a.Grows b) (h₂ : b.Grows c) : a.Grows c :=
  ⟨h₂.target.trans h₁.target, h₁.revision.trans h₂.revision,
    fun h => h₂.historyGap (h₁.historyGap h)⟩

def TracesGrow (r r' : Repository) : Prop :=
  ∀ id row, r.traces.lookup id = some row → ∃ row', r'.traces.lookup id = some row' ∧ row.Grows row'

theorem TracesGrow.trans {r₁ r₂ r₃ : Repository} (h₁ : TracesGrow r₁ r₂) (h₂ : TracesGrow r₂ r₃) :
    TracesGrow r₁ r₃ := by
  intro id row hrow
  obtain ⟨row₂, hrow₂, hgrows₂⟩ := h₁ id row hrow
  obtain ⟨row₃, hrow₃, hgrows₃⟩ := h₂ id row₂ hrow₂
  exact ⟨row₃, hrow₃, hgrows₂.trans hgrows₃⟩

theorem saveCommand_agrees {r : Repository} (hr : RowsAgree pins r) {c : PendingCommand}
    (hid : c.id ≠ "") (hfixed : fixedColumns c = pins.fixed c.id) :
    RowsAgree pins (r.saveCommand c) := by
  refine ⟨?_, hr.targets, hr.snapshots⟩
  intro id c' hc'
  rw [lookup_saveCommand hr hfixed] at hc'
  split at hc'
  · rename_i heq
    cases hc'
    exact ⟨heq.symm, heq ▸ hid, heq ▸ hfixed⟩
  · exact hr.commands id c' hc'

/-- A change of traces that agrees with the pins. -/
structure Extends (pins : Pins) (r r' : Repository) : Prop where
  commands : r'.commands = r.commands
  grows : TracesGrow r r'
  agrees : RowsAgree pins r → RowsAgree pins r'

theorem Extends.refl (r : Repository) : Extends pins r r :=
  ⟨rfl, fun _ row hrow => ⟨row, hrow, .refl row⟩, fun h => h⟩

theorem Extends.trans {r₁ r₂ r₃ : Repository} (h₁ : Extends pins r₁ r₂) (h₂ : Extends pins r₂ r₃) :
    Extends pins r₁ r₃ :=
  ⟨h₂.commands.trans h₁.commands, h₁.grows.trans h₂.grows, fun h => h₂.agrees (h₁.agrees h)⟩

/-- One trace is rewritten. -/
theorem Extends.insert {r : Repository} {id : String} {row row' : TraceRow}
    {events : Map (String × Nat) TrackedCommand} (hrow : r.traces.lookup id = some row)
    (hgrows : row.Grows row')
    (hsnapshot : ∀ v, row'.snapshot = some v → row.snapshot = some v ∨ v.commandID = id) :
    Extends pins r { r with traces := r.traces.insert id row', events := events } := by
  refine ⟨rfl, ?_, fun hr => ⟨hr.commands, ?_, ?_⟩⟩
  · intro id' row₀ hrow₀
    rw [Map.lookup_insert_eq]
    split
    · rename_i heq
      obtain rfl : row = row₀ := Option.some.inj (hrow.symm.trans (heq ▸ hrow₀))
      exact ⟨row', rfl, hgrows⟩
    · exact ⟨row₀, hrow₀, .refl row₀⟩
  · intro id' row₀ hrow₀
    rw [Map.lookup_insert_eq] at hrow₀
    split at hrow₀
    · rename_i heq
      cases hrow₀
      rw [hgrows.target, heq]
      exact hr.targets id row hrow
    · exact hr.targets id' row₀ hrow₀
  · intro id' row₀ v hrow₀ hv
    rw [Map.lookup_insert_eq] at hrow₀
    split at hrow₀
    · rename_i heq
      cases hrow₀
      rw [heq]
      rcases hsnapshot v hv with hold | hid
      · exact hr.snapshots id row v hrow hold
      · exact hid
    · exact hr.snapshots id' row₀ v hrow₀ hv

theorem beginCommandTrace_eq_ok {r r' : Repository} (hr : RowsAgree pins r) {id : String}
    {t : CommandTrace} (htarget : t.target = pins.target id)
    (h : r.beginCommandTrace id t = .ok r') :
    Extends pins r r' ∧ ∃ row, r'.traces.lookup id = some row ∧ row.target = t.target ∧
      (t.historyGap = true → row.historyGap = true) := by
  unfold Repository.beginCommandTrace at h
  split at h
  · cases h
  cases hrow : r.traces.lookup id with
  | none =>
    simp only [hrow, Except.ok.injEq] at h
    subst h
    refine ⟨⟨rfl, ?_, fun hr => ⟨hr.commands, ?_, ?_⟩⟩, _, AList.lookup_insert _, rfl, fun h => h⟩
    · intro id' row hrow'
      refine ⟨row, ?_, .refl row⟩
      rw [Map.lookup_insert_eq, if_neg, hrow']
      rintro rfl
      rw [hrow] at hrow'
      cases hrow'
    · intro id' row hrow'
      rw [Map.lookup_insert_eq] at hrow'
      split at hrow'
      · rename_i heq
        cases hrow'
        exact heq ▸ htarget
      · exact hr.targets id' row hrow'
    · intro id' row v hrow' hv
      rw [Map.lookup_insert_eq] at hrow'
      split at hrow'
      · cases hrow'
        cases hv
      · exact hr.snapshots id' row v hrow' hv
  | some row =>
    have hsame : row.target = t.target := (hr.targets id row hrow).trans htarget.symm
    simp only [hrow, if_pos hsame, Except.ok.injEq] at h
    subst h
    exact ⟨.insert hrow ⟨rfl, Nat.le_refl _, fun hgap => by simp [hgap]⟩ fun _ hv => .inl hv,
      _, AList.lookup_insert _, hsame, fun hgap => by simp [hgap]⟩

theorem saveValue_eq_ok {parse : String → Except String Unit} {source gateway manager : String}
    {gap : Bool} {r r' : Repository} {v : TrackedCommand}
    (h : r.saveValue parse source gateway manager gap v = .ok r') :
    Extends pins r r' ∧ ∀ row c, r.traces.lookup v.commandID = some row →
      r.commands.lookup v.commandID = some c → row.target.gatewayInstanceID = gateway →
      c.sourceID = source →
      ∃ row', r'.traces.lookup v.commandID = some row' ∧ v.revision ≤ row'.revision := by
  unfold Repository.saveValue at h
  cases hvalid : v.validate parse with
  | error e => simp [hvalid] at h
  | ok _ =>
    simp only [hvalid] at h
    split at h
    · cases h
    cases hrow : r.traces.lookup v.commandID with
    | none =>
      simp only [hrow, Except.ok.injEq] at h
      exact ⟨h ▸ .refl r, by simp⟩
    | some row =>
      cases hc : r.commands.lookup v.commandID with
      | none =>
        simp only [hrow, hc, Except.ok.injEq] at h
        exact ⟨h ▸ .refl r, by simp⟩
      | some c =>
        simp only [hrow, hc] at h
        split at h
        · rename_i hother
          cases h
          refine ⟨.refl r, fun row' c' hrow' hc' hgateway => ?_⟩
          cases hrow'
          exact absurd hgateway hother
        split at h
        · rename_i hother
          cases h
          refine ⟨.refl r, fun row' c' hrow' hc' _ hsource => ?_⟩
          cases hc'
          exact absurd hsource hother
        split at h
        · cases h
        simp only [Except.ok.injEq] at h
        subst h
        refine ⟨.insert hrow ?_ ?_, fun _ _ _ _ _ _ => ⟨_, AList.lookup_insert _, ?_⟩⟩
        · split
          · rename_i hlt
            exact ⟨rfl, Nat.le_of_lt hlt, fun hgap => by simp [hgap]⟩
          · exact .refl row
        · intro v' hv'
          split at hv'
          · cases hv'
            exact .inr rfl
          · exact .inl hv'
        · split
          · exact Nat.le_refl _
          · omega

theorem saveValues_eq_ok {parse : String → Except String Unit} {source gateway manager : String}
    {gap : Bool} {values : List TrackedCommand} {r r' : Repository}
    (h : values.foldlM (Repository.saveValue parse source gateway manager gap) r = .ok r') :
    Extends pins r r' ∧ ∀ v ∈ values, ∀ row c, r.traces.lookup v.commandID = some row →
      r.commands.lookup v.commandID = some c → row.target.gatewayInstanceID = gateway →
      c.sourceID = source →
      ∃ row', r'.traces.lookup v.commandID = some row' ∧ v.revision ≤ row'.revision := by
  induction values generalizing r with
  | nil =>
    cases h
    exact ⟨.refl _, by simp⟩
  | cons w values ih =>
    rw [List.foldlM_cons] at h
    cases hw : r.saveValue parse source gateway manager gap w with
    | error e =>
      rw [hw] at h
      cases h
    | ok r₁ =>
      rw [hw] at h
      obtain ⟨hfirst, hsaved⟩ : Extends pins r r₁ ∧ _ := saveValue_eq_ok hw
      obtain ⟨hrest, hothers⟩ := ih h
      refine ⟨hfirst.trans hrest, ?_⟩
      intro v hv row c hrow hc hgateway hsource
      rcases List.mem_cons.mp hv with rfl | hv
      · obtain ⟨row₁, hrow₁, hle₁⟩ := hsaved row c hrow hc hgateway hsource
        obtain ⟨row', hrow', hgrows⟩ := hrest.grows _ row₁ hrow₁
        exact ⟨row', hrow', hle₁.trans hgrows.revision⟩
      · obtain ⟨row₁, hrow₁, hgrows⟩ := hfirst.grows _ row hrow
        refine hothers v hv row₁ c hrow₁ ?_ ?_ hsource
        · rw [hfirst.commands]
          exact hc
        · rw [hgrows.target]
          exact hgateway

theorem markSource_extends (r : Repository) (source gateway : String) :
    Extends pins r (r.markSource source gateway) := by
  refine ⟨rfl, ?_, fun hr => ⟨hr.commands, ?_, ?_⟩⟩
  · intro id row hrow
    rw [show (r.markSource source gateway).traces.lookup id = _ from Map.lookup_mapValues, hrow]
    refine ⟨_, rfl, ?_⟩
    dsimp only
    split
    · exact ⟨rfl, Nat.le_refl _, fun _ => rfl⟩
    · exact .refl row
  · intro id row hrow
    rw [show (r.markSource source gateway).traces.lookup id = _ from Map.lookup_mapValues] at hrow
    obtain ⟨row₀, hrow₀, rfl⟩ := Option.map_eq_some_iff.mp hrow
    rw [← hr.targets id row₀ hrow₀]
    split <;> rfl
  · intro id row v hrow hv
    rw [show (r.markSource source gateway).traces.lookup id = _ from Map.lookup_mapValues] at hrow
    obtain ⟨row₀, hrow₀, rfl⟩ := Option.map_eq_some_iff.mp hrow
    refine hr.snapshots id row₀ v hrow₀ ?_
    split at hv <;> exact hv

theorem saveCommandEvidence_eq_ok {parse : String → Except String Unit} {manager : String}
    {r r' : Repository} {p : Page} (h : r.saveCommandEvidence parse manager p = .ok r') :
    Extends pins r r' ∧ ∀ v ∈ p.values, ∀ row c, r.traces.lookup v.commandID = some row →
      r.commands.lookup v.commandID = some c → row.target.gatewayInstanceID = p.gateway →
      c.sourceID = p.source →
      ∃ row', r'.traces.lookup v.commandID = some row' ∧ v.revision ≤ row'.revision := by
  unfold Repository.saveCommandEvidence at h
  cases hvalues : p.values.foldlM
      (Repository.saveValue parse p.source p.gateway manager p.gap) r with
  | error e => simp [hvalues] at h
  | ok r₁ =>
    simp only [hvalues] at h
    obtain ⟨hsaved, hrows⟩ : Extends pins r r₁ ∧ _ := saveValues_eq_ok hvalues
    have hmarked : Extends pins r₁
        (if p.gap ∧ p.cursor.isSome then r₁.markSource p.source p.gateway else r₁) := by
      split
      · exact markSource_extends r₁ _ _
      · exact .refl r₁
    have hall : Extends pins r₁ r' := by
      generalize (if p.gap ∧ p.cursor.isSome then r₁.markSource p.source p.gateway else r₁) = r₂
        at h hmarked
      cases hcursor : p.cursor with
      | none =>
        simp only [hcursor, Except.ok.injEq] at h
        exact h ▸ hmarked
      | some cursor =>
        simp only [hcursor, Except.ok.injEq] at h
        subst h
        refine hmarked.trans ⟨rfl, ?_, fun hr => ⟨hr.commands, hr.targets, hr.snapshots⟩⟩
        exact fun _ row hrow => ⟨row, hrow, .refl row⟩
    refine ⟨hsaved.trans hall, ?_⟩
    intro v hv row c hrow hc hgateway hsource
    obtain ⟨row₁, hrow₁, hle⟩ := hrows v hv row c hrow hc hgateway hsource
    obtain ⟨row', hrow', hgrows⟩ := hall.grows _ row₁ hrow₁
    exact ⟨row', hrow', hle.trans hgrows.revision⟩

end RcdServer.Audit
