import RcdServer.Audit.Repository
import RcdServer.Lib.Run

/-!
# The audit service

`commandAuditService` of `command_audit_service.go`. A step is one critical section of the
service's lock or one call of the repository. `evidence` reads under the lock, or else from the
repository, and puts its copy later. `persist` and `commitPage` hold the token `io` from the entries
they take to the mark that these are stored; a call of the repository that fails ends them. `flush`
is a sequence of `persist`.
-/
namespace RcdServer.Audit

open Lib Routes

/-! ## Entries -/

structure Entry where
  detail : CommandDetail
  revision : Nat
  dirty : Bool
  deriving DecidableEq

def Entry.command (e : Entry) : PendingCommand := e.detail.command

def Entry.trace (e : Entry) : Option CommandTrace := e.detail.trace

def CommandTrace.markGap (t : CommandTrace) : CommandTrace := { t with historyGap := true }

/-- `Waiting` or `Queued`. -/
def unfinished (state : CommandState) : Bool := state == .waiting || state == .queued

/-- A delayed acceptance does not undo an outcome. -/
def mergeCommand (old : Option Entry) (c : PendingCommand) : PendingCommand :=
  match old with
  | none => c
  | some o =>
    let c := if o.command.id ≠ "" ∧ !unfinished o.command.state ∧ unfinished c.state then o.command
      else c
    if o.command.state = .waiting ∧ c.state = .queued then o.command else c

/-- The old trace has a snapshot that the new one has not, or only an older one. -/
def outdated (old new : CommandTrace) : Bool :=
  match old.snapshot, new.snapshot with
  | none, _ => false
  | some _, none => true
  | some o, some n => o.revision > n.revision

def mergeTrace (old : Option Entry) (trace : Option CommandTrace) : Option CommandTrace :=
  match trace, old.bind Entry.trace with
  | none, oldTrace => oldTrace
  | some t, none => some t
  | some t, some o => if outdated o t then some o else some t

structure Service where
  entries : Map String Entry
  error : Option String
  gap : Bool
  revision : Nat

namespace Service

def merge (s : Service) (detail : CommandDetail) : CommandDetail :=
  let old := s.entries.lookup detail.command.id
  let trace := mergeTrace old detail.trace
  { command := mergeCommand old detail.command
    trace := if s.error.isSome then trace.map CommandTrace.markGap else trace }

/-- A changed entry is dirty under a new revision. -/
def change (s : Service) (id : String) (detail : CommandDetail) : Service :=
  { s with
    revision := s.revision + 1
    entries := s.entries.insert id ⟨detail, s.revision + 1, true⟩ }

def store (s : Service) (detail : CommandDetail) : Service :=
  s.change (s.merge detail).command.id (s.merge detail)

def commandAuditLimit : Nat := 10000

/-- The entries that may be evicted. -/
def finished (s : Service) : List (String × Entry) :=
  (s.entries.entries.map fun e => (e.1, e.2)).filter fun e => !unfinished e.2.command.state

def oldest (s : Service) (id : String) : Bool :=
  s.finished.any fun e =>
    e.1 == id && s.finished.all fun e' => e.2.command.startedAt ≤ e'.2.command.startedAt

/-- Of several oldest entries, the one that the iteration meets first is the victim. -/
def put (s : Service) (detail : CommandDetail) (victim : String) : Option Service :=
  if detail.command.id ∉ s.entries ∧ s.entries.entries.length ≥ commandAuditLimit then
    if s.finished.isEmpty then
      some { s with gap := true, error := some "command audit memory limit reached" }
    else if s.oldest victim then
      let evicted := { s with
        gap := s.gap || (s.entries.lookup victim).any Entry.dirty
        entries := s.entries.erase victim }
      some (evicted.store detail)
    else none
  else some (s.store detail)

def failed (s : Service) (id : String) (error : String) : Service :=
  let s := { s with error := some error }
  match s.entries.lookup id with
  | none => s
  | some e => s.change id { e.detail with trace := e.trace.map CommandTrace.markGap }

/-- One entry in the loop of `markHistoryGap`. -/
def markEntry (source gateway : String) (s : Service) (id : String) : Service :=
  match s.entries.lookup id with
  | none => s
  | some e =>
    match e.trace with
    | none => s
    | some t =>
      if e.command.sourceID ≠ source ∨ t.target.gatewayInstanceID ≠ gateway ∨ t.historyGap then s
      else s.change id { e.detail with trace := some t.markGap }

def markHistoryGap (s : Service) (source gateway : String) : Service :=
  s.entries.keys.foldl (markEntry source gateway) s

/-- An entry that has not changed since it was taken is stored. -/
def markStored (s : Service) (id : String) (taken : Entry) : Service :=
  match s.entries.lookup id with
  | none => s
  | some latest =>
    if latest.revision = taken.revision then
      { s with entries := s.entries.insert id { latest with dirty := false } }
    else s

def clearError (s : Service) : Service :=
  if s.entries.entries.all fun e => !e.2.dirty then { s with error := none } else s

end Service

/-! ## The system -/

abbrev Page := Repository.Page

inductive Stage where
  /-- `SaveCommand` of one of these is next. -/
  | commands (todo : List (String × Entry))
  | tracing (id : String) (e : Entry) (todo : List (String × Entry))
  | evidence
  | finishing
  deriving DecidableEq

/-- What the holder of the token has taken and how far it came. -/
structure Save where
  taken : List (String × Entry)
  /-- `none` where `persist` has no snapshot to save. -/
  page : Option Page
  /-- Whether a taken snapshot has to be covered by one of the page. -/
  covering : Bool
  stage : Stage
  deriving DecidableEq

def Save.covers (save : Save) (id : String) (e : Entry) : Bool :=
  match e.trace.bind (·.snapshot) with
  | none => true
  | some snapshot =>
    !save.covering || (save.page.elim [] (·.values)).any fun v =>
      v.commandID == id && decide (snapshot.revision ≤ v.revision)

inductive Reading where
  /-- There was no entry; the repository is asked next. -/
  | loading (source : String) (v : TrackedCommand)
  | putting (detail : CommandDetail)
  deriving DecidableEq

/-- The manager's own identity, and the parser of times. -/
structure Env where
  managerID : String
  parse : String → Except String Unit

structure Sys where
  repository : Repository
  service : Service
  io : Option Save
  readings : Map Nat Reading
  next : Nat

inductive Action where
  | record (c : PendingCommand) (victim : String)
  | trace (c : PendingCommand) (t : CommandTrace) (victim : String)
  | restore (id victim : String)
  | evidence (source : String) (v : TrackedCommand)
  | load (reading : Nat) (available : Bool)
  | putEvidence (reading : Nat) (victim : String)
  | markHistoryGap (source gateway : String)
  /-- `persist` does not get the token in time. -/
  | persistTimeout (id error : String)
  | persist (id : String)
  | commitPage (page : Page)
  /-- The error of a failed call is its text. -/
  | saveCommand (id : String) (failure : Option String)
  | beginCommandTrace (failure : Option String)
  | saveCommandEvidence (failure : Option String)
  | markStored

namespace Sys

def initial (r : Repository) : Sys := ⟨r, ⟨∅, none, false, 0⟩, none, ∅, 0⟩

def put (s : Sys) (detail : CommandDetail) (victim : String) : Option Sys :=
  (s.service.put detail victim).map fun service => { s with service := service }

/-- What `evidence` puts for a copy that it has read, if anything. -/
def evidenced (env : Env) (source : String) (v : TrackedCommand) (detail : CommandDetail) :
    Option CommandDetail :=
  match detail.trace with
  | none => none
  | some t =>
    if source ≠ detail.command.sourceID ∨ v.managerInstanceID ≠ env.managerID ∨
        v.gatewayInstanceID ≠ t.target.gatewayInstanceID ∨ v.bootID ≠ t.target.bootID ∨
        v.portID ≠ t.target.physicalPort ∨ v.requestHash ≠ t.target.requestHash then none
    else if t.snapshot.any fun snapshot => v.revision ≤ snapshot.revision then none
    else some { detail with trace := some { t with snapshot := some v } }

def read (s : Sys) (reading : Reading) : Sys :=
  { s with readings := s.readings.insert s.next reading, next := s.next + 1 }

def evidence (env : Env) (s : Sys) (source : String) (v : TrackedCommand) : Sys :=
  match v.validate env.parse with
  | .error _ => s
  | .ok () =>
    match s.service.entries.lookup v.commandID with
    | none => s.read (.loading source v)
    | some e =>
      match evidenced env source v e.detail with
      | none => s
      | some detail => s.read (.putting detail)

def load (env : Env) (s : Sys) (reading : Nat) (available : Bool) : Option Sys :=
  match s.readings.lookup reading with
  | some (.loading source v) =>
    let done := { s with readings := s.readings.erase reading }
    if !available then some done
    else
      match (s.repository.commandDetail v.commandID).bind (evidenced env source v) with
      | none => some done
      | some detail =>
        some { s with readings := s.readings.insert reading (.putting detail) }
  | _ => none

def putEvidence (s : Sys) (reading : Nat) (victim : String) : Option Sys :=
  match s.readings.lookup reading with
  | some (.putting detail) =>
    { s with readings := s.readings.erase reading }.put detail victim
  | _ => none

/-- Where the holder goes on once the listed entries are left. -/
def proceed (save : Save) (todo : List (String × Entry)) : Save :=
  { save with stage :=
      if todo.isEmpty then if save.page.isSome then .evidence else .finishing
      else .commands todo }

/-- `persist` with the token. -/
def persist (s : Sys) (id : String) : Option Sys :=
  if s.io.isSome then none
  else
    match s.service.entries.lookup id with
    | none => some s
    | some e =>
      if !e.dirty then some s
      else
        let page : Option Page := e.trace.bind fun t => t.snapshot.map fun snapshot =>
          ⟨e.command.sourceID, t.target.gatewayInstanceID, [snapshot], none, t.historyGap⟩
        some { s with io := some ⟨[(id, e)], page, false, .commands [(id, e)]⟩ }

/-- `commitPage` with the token. -/
def commitPage (s : Sys) (page : Page) : Option Sys :=
  if s.io.isSome then none
  else
    let taken := (s.service.entries.entries.map fun e => (e.1, e.2)).filter fun e =>
      page.values.any (·.commandID == e.1) && e.2.command.sourceID == page.source && e.2.dirty
    some { s with io := some (proceed ⟨taken, some page, true, .evidence⟩ taken) }

/-- The holder of the token gives up. -/
def fail (s : Sys) (ids : List String) (error : String) : Sys :=
  { s with service := ids.foldl (fun service id => service.failed id error) s.service, io := none }

def saveCommand (s : Sys) (id : String) (failure : Option String) : Option Sys :=
  match s.io with
  | some save =>
    match save.stage with
    | .commands todo =>
      match todo.find? (·.1 == id) with
      | none => none
      | some (_, e) =>
        match failure with
        | some error => some (s.fail [id] error)
        | none =>
          let rest := todo.filter (·.1 != id)
          some { s with
            repository := s.repository.saveCommand e.command
            io := some (if e.trace.isSome then { save with stage := .tracing id e rest }
              else proceed save rest) }
    | _ => none
  | none => none

def beginCommandTrace (s : Sys) (failure : Option String) : Option Sys :=
  match s.io with
  | some save =>
    match save.stage with
    | .tracing id e todo =>
      match failure, e.trace with
      | some error, _ => some (s.fail [id] error)
      | none, none => none
      | none, some t =>
        match s.repository.beginCommandTrace id t with
        | .error error => some (s.fail [id] error)
        | .ok r => some { s with repository := r, io := some (proceed save todo) }
    | _ => none
  | none => none

def saveCommandEvidence (env : Env) (s : Sys) (failure : Option String) : Option Sys :=
  match s.io with
  | some save =>
    match save.stage, save.page with
    | .evidence, some page =>
      match failure with
      | some error => some (s.fail (save.taken.map (·.1)) error)
      | none =>
        match s.repository.saveCommandEvidence env.parse env.managerID page with
        | .error error => some (s.fail (save.taken.map (·.1)) error)
        | .ok r => some { s with repository := r, io := some { save with stage := .finishing } }
    | _, _ => none
  | none => none

def markStored (s : Sys) : Option Sys :=
  match s.io with
  | some save =>
    match save.stage with
    | .finishing =>
      let service := (save.taken.filter fun e => save.covers e.1 e.2).foldl
        (fun service e => service.markStored e.1 e.2) s.service
      some { s with service := service.clearError, io := none }
    | _ => none
  | none => none

end Sys

def step (env : Env) (s : Sys) : Action → Option Sys
  | .record c victim => s.put { command := c } victim
  | .trace c t victim => s.put { command := c, trace := some t } victim
  | .restore id victim => (s.repository.commandDetail id).bind fun detail => s.put detail victim
  | .evidence source v => some (s.evidence env source v)
  | .load reading available => s.load env reading available
  | .putEvidence reading victim => s.putEvidence reading victim
  | .markHistoryGap source gateway =>
    some { s with service := s.service.markHistoryGap source gateway }
  | .persistTimeout id error => some { s with service := s.service.failed id error }
  | .persist id => s.persist id
  | .commitPage page => s.commitPage page
  | .saveCommand id failure => s.saveCommand id failure
  | .beginCommandTrace failure => s.beginCommandTrace failure
  | .saveCommandEvidence failure => s.saveCommandEvidence env failure
  | .markStored => s.markStored

namespace Sys

/-! ## What the calls return -/

section Calls

variable {env : Env} {s s' : Sys} {source id victim : String} {v : TrackedCommand} {k : Nat}
  {available : Bool} {failure : Option String}

theorem evidence_cases (env : Env) (s : Sys) (source : String) (v : TrackedCommand) :
    s.evidence env source v = s ∨ ∃ reading, s.evidence env source v = s.read reading ∧
      ∀ d, reading = .putting d → ∃ e, s.service.entries.lookup v.commandID = some e ∧
        evidenced env source v e.detail = some d := by
  unfold evidence
  split
  · exact .inl rfl
  cases he : s.service.entries.lookup v.commandID with
  | none =>
    refine .inr ⟨_, rfl, fun d hd => ?_⟩
    cases hd
  | some e =>
    dsimp only
    cases hd : evidenced env source v e.detail with
    | none => exact .inl rfl
    | some d =>
      refine .inr ⟨_, rfl, fun d' hd' => ⟨e, rfl, ?_⟩⟩
      cases hd'
      exact hd

theorem load_eq_some (h : s.load env k available = some s') :
    s' = { s with readings := s.readings.erase k } ∨
    ∃ source v d₀ d, s.repository.commandDetail v.commandID = some d₀ ∧
      evidenced env source v d₀ = some d ∧
      s' = { s with readings := s.readings.insert k (.putting d) } := by
  unfold load at h
  generalize s.readings.lookup k = reading at h
  cases reading with
  | none => cases h
  | some reading =>
    cases reading with
    | putting d => cases h
    | loading source v =>
      dsimp only at h
      split at h
      · cases h
        exact .inl rfl
      cases hd : (s.repository.commandDetail v.commandID).bind (evidenced env source v) with
      | none =>
        simp only [hd, Option.some.injEq] at h
        exact .inl h.symm
      | some d =>
        simp only [hd, Option.some.injEq] at h
        obtain ⟨d₀, hd₀, hevidenced⟩ := Option.bind_eq_some_iff.mp hd
        exact .inr ⟨source, v, d₀, d, hd₀, hevidenced, h.symm⟩

theorem putEvidence_eq_some (h : s.putEvidence k victim = some s') :
    ∃ d, s.readings.lookup k = some (.putting d) ∧
      put { s with readings := s.readings.erase k } d victim = some s' := by
  unfold putEvidence at h
  cases hk : s.readings.lookup k with
  | none => simp [hk] at h
  | some reading =>
    cases reading with
    | loading source v => simp [hk] at h
    | putting d =>
      simp only [hk] at h
      exact ⟨d, rfl, h⟩

theorem persist_eq_some (h : s.persist id = some s') :
    s' = s ∨ ∃ e, s.service.entries.lookup id = some e ∧ e.dirty = true ∧
      s' = { s with io := some ⟨[(id, e)],
        e.trace.bind fun t => t.snapshot.map fun snapshot =>
          ⟨e.command.sourceID, t.target.gatewayInstanceID, [snapshot], none, t.historyGap⟩,
        false, .commands [(id, e)]⟩ } := by
  unfold persist at h
  split at h
  · cases h
  cases he : s.service.entries.lookup id with
  | none =>
    simp only [he, Option.some.injEq] at h
    exact .inl h.symm
  | some e =>
    simp only [he] at h
    split at h
    · cases h
      exact .inl rfl
    · rename_i hdirty
      exact .inr ⟨e, rfl, by simpa using hdirty, (Option.some.inj h).symm⟩

theorem saveCommand_eq_some (h : s.saveCommand id failure = some s') :
    ∃ save todo e, s.io = some save ∧ save.stage = .commands todo ∧ (id, e) ∈ todo ∧
      ((∃ error, s' = s.fail [id] error) ∨
      s' = { s with
        repository := s.repository.saveCommand e.command
        io := some (if e.trace.isSome then
          { save with stage := .tracing id e (todo.filter (·.1 != id)) }
          else proceed save (todo.filter (·.1 != id))) }) := by
  unfold saveCommand at h
  cases hio : s.io with
  | none => simp [hio] at h
  | some save =>
    simp only [hio] at h
    cases hstage : save.stage with
    | tracing | evidence | finishing => simp [hstage] at h
    | commands todo =>
      simp only [hstage] at h
      cases hfind : todo.find? (·.1 == id) with
      | none => simp [hfind] at h
      | some x =>
        obtain ⟨id', e⟩ := x
        obtain rfl : id' = id := by simpa using List.find?_some hfind
        simp only [hfind] at h
        refine ⟨save, todo, e, rfl, hstage, List.mem_of_find?_eq_some hfind, ?_⟩
        cases failure with
        | some error => exact .inl ⟨error, (Option.some.inj h).symm⟩
        | none => exact .inr (Option.some.inj h).symm

theorem beginCommandTrace_eq_some (h : s.beginCommandTrace failure = some s') :
    ∃ save id e todo, s.io = some save ∧ save.stage = .tracing id e todo ∧
      ((∃ error, s' = s.fail [id] error) ∨
      ∃ t r, e.trace = some t ∧ s.repository.beginCommandTrace id t = .ok r ∧
        s' = { s with repository := r, io := some (proceed save todo) }) := by
  unfold beginCommandTrace at h
  cases hio : s.io with
  | none => simp [hio] at h
  | some save =>
    simp only [hio] at h
    cases hstage : save.stage with
    | commands | evidence | finishing => simp [hstage] at h
    | tracing id e todo =>
      simp only [hstage] at h
      refine ⟨save, id, e, todo, rfl, hstage, ?_⟩
      cases failure with
      | some error => exact .inl ⟨error, (Option.some.inj h).symm⟩
      | none =>
        cases ht : e.trace with
        | none => simp [ht] at h
        | some t =>
          simp only [ht] at h
          cases hbegin : s.repository.beginCommandTrace id t with
          | error error =>
            simp only [hbegin, Option.some.injEq] at h
            exact .inl ⟨error, h.symm⟩
          | ok r =>
            simp only [hbegin, Option.some.injEq] at h
            exact .inr ⟨t, r, rfl, hbegin, h.symm⟩

theorem saveCommandEvidence_eq_some (h : s.saveCommandEvidence env failure = some s') :
    ∃ save p, s.io = some save ∧ save.stage = .evidence ∧ save.page = some p ∧
      ((∃ error, s' = s.fail (save.taken.map (·.1)) error) ∨
      ∃ r, s.repository.saveCommandEvidence env.parse env.managerID p = .ok r ∧
        s' = { s with repository := r, io := some { save with stage := .finishing } }) := by
  unfold saveCommandEvidence at h
  cases hio : s.io with
  | none => simp [hio] at h
  | some save =>
    simp only [hio] at h
    cases hstage : save.stage with
    | commands | tracing | finishing => simp [hstage] at h
    | evidence =>
      cases hpage : save.page with
      | none => simp [hstage, hpage] at h
      | some p =>
        simp only [hstage, hpage] at h
        refine ⟨save, p, rfl, hstage, hpage, ?_⟩
        cases failure with
        | some error => exact .inl ⟨error, (Option.some.inj h).symm⟩
        | none =>
          dsimp only at h
          cases hsave : s.repository.saveCommandEvidence env.parse env.managerID p with
          | error error =>
            simp only [hsave, Option.some.injEq] at h
            exact .inl ⟨error, h.symm⟩
          | ok r =>
            simp only [hsave, Option.some.injEq] at h
            exact .inr ⟨r, rfl, h.symm.trans (by rw [hpage])⟩

theorem markStored_eq_some (h : s.markStored = some s') :
    ∃ save, s.io = some save ∧ save.stage = .finishing ∧ s' = { s with
      service := ((save.taken.filter fun e => save.covers e.1 e.2).foldl
        (fun service e => service.markStored e.1 e.2) s.service).clearError
      io := none } := by
  unfold markStored at h
  cases hio : s.io with
  | none => simp [hio] at h
  | some save =>
    simp only [hio] at h
    cases hstage : save.stage with
    | commands | tracing | evidence => simp [hstage] at h
    | finishing =>
      simp only [hstage, Option.some.injEq] at h
      exact ⟨save, rfl, hstage, h.symm⟩

end Calls

end Sys

end RcdServer.Audit
