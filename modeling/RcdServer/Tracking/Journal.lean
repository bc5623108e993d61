import Mathlib.Data.List.Nodup
import Mathlib.Data.List.Sort
import Mathlib.Order.Lattice
import RcdServer.Lib.Text

/-!
# The command journal as a SQLite file

Snapshots, the two tables `commands` and `events`, the single-row tables
`journal_meta`, `journal_integrity` and `identity`, and the statements that
`save`, `prune_journal`, `open_database` and the `Request::Events` branch of the
writer run on them. A transaction either happened or did not. A stored JSON text
is kept as the snapshot it was printed from.
-/
namespace RcdServer.Tracking

open Lib.Text (textLe textLt)

/-- The phases the lower writes into a snapshot. -/
inductive Phase where
  | accepted | executing | ackReceived | failed | expired | unknown | sentUnconfirmed
  deriving DecidableEq

structure Attempt where
  attempt : Nat
  sent : Bool
  result : String
  time : String
  deriving DecidableEq

structure Snapshot where
  schemaVersion : Nat
  managerInstanceId : String
  commandId : String
  gatewayInstanceId : String
  bootId : String
  portId : String
  ackId : String
  requestHash : String
  requestPreview : String
  deviceId : String
  accepted : Bool
  statusCode : Nat
  phase : Phase
  attemptCount : Nat
  sentCount : Nat
  attempts : List Attempt
  error : String
  revision : Nat
  startedAt : String
  updatedAt : String
  auditIncomplete : Bool
  deriving DecidableEq

def Phase.terminal : Phase → Bool
  | .ackReceived | .failed | .expired | .unknown | .sentUnconfirmed => true
  | .accepted | .executing => false

def Snapshot.terminal (v : Snapshot) : Bool := v.phase.terminal

def key (manager command : String) : String := manager ++ "\x00" ++ command

def Snapshot.key (v : Snapshot) : String := Tracking.key v.managerInstanceId v.commandId

structure CommandRow where
  manager : String
  id : String
  revision : Nat
  finished : Bool
  updated : String
  data : Snapshot
  deriving DecidableEq

structure EventRow where
  revision : Nat
  manager : String
  id : String
  data : Snapshot
  deriving DecidableEq

def CommandRow.primaryKey (c : CommandRow) : String × String := (c.manager, c.id)

/-- The file. Primary keys are unique, and an event row's columns repeat what its
JSON says because `save` is the only statement that inserts one. -/
structure Journal where
  identity : Option String
  commands : List CommandRow
  events : List EventRow
  head : Nat
  historyGap : Bool
  commandsKey : (commands.map CommandRow.primaryKey).Nodup
  eventsKey : (events.map EventRow.revision).Nodup
  eventsData : ∀ e ∈ events, e.data.revision = e.revision ∧ e.data.managerInstanceId = e.manager

def Journal.empty : Journal where
  identity := none
  commands := []
  events := []
  head := 0
  historyGap := false
  commandsKey := List.nodup_nil
  eventsKey := List.nodup_nil
  eventsData := by simp

def commandRow (v : Snapshot) : CommandRow :=
  { manager := v.managerInstanceId, id := v.commandId, revision := v.revision,
    finished := v.terminal, updated := v.updatedAt, data := v }

def eventRow (v : Snapshot) : EventRow :=
  { revision := v.revision, manager := v.managerInstanceId, id := v.commandId, data := v }

/-- The equality of primary keys. -/
instance instLawfulBEqPrimaryKey : LawfulBEq (String × String) := inferInstance

/-- `INSERT .. ON CONFLICT(manager,id) DO UPDATE .. WHERE excluded.revision>commands.revision`. -/
def upsertCommand (rows : List CommandRow) (row : CommandRow) : List CommandRow :=
  if row.primaryKey ∈ rows.map CommandRow.primaryKey then
    rows.map fun c => if c.primaryKey = row.primaryKey ∧ c.revision < row.revision then row else c
  else rows ++ [row]

/-- `INSERT OR IGNORE INTO events`. -/
def insertEvent (rows : List EventRow) (row : EventRow) : List EventRow :=
  if row.revision ∈ rows.map EventRow.revision then rows else rows ++ [row]

theorem upsertCommand_keys (rows : List CommandRow) (row : CommandRow)
    (h : (rows.map CommandRow.primaryKey).Nodup) :
    ((upsertCommand rows row).map CommandRow.primaryKey).Nodup := by
  unfold upsertCommand
  split
  · have hk : (rows.map fun c => if c.primaryKey = row.primaryKey ∧ c.revision < row.revision
        then row else c).map CommandRow.primaryKey = rows.map CommandRow.primaryKey := by
      rw [List.map_map]
      apply List.map_congr_left
      intro c _
      by_cases hc : c.primaryKey = row.primaryKey ∧ c.revision < row.revision
      · simp [hc]
      · simp [hc]
    rw [hk]
    exact h
  · rename_i hn
    rw [List.map_append, List.map_singleton]
    exact List.nodup_append.mpr ⟨h, List.nodup_singleton _, by
      intro a ha b hb
      obtain rfl : b = row.primaryKey := by simpa using hb
      exact fun e => hn (e ▸ ha)⟩

theorem mem_insertEvent {rows : List EventRow} {row e : EventRow} (h : e ∈ insertEvent rows row) :
    e ∈ rows ∨ e = row := by
  unfold insertEvent at h
  split at h
  · exact .inl h
  · simpa using h

theorem subset_insertEvent (rows : List EventRow) (row : EventRow) : rows ⊆ insertEvent rows row := by
  intro e he
  unfold insertEvent
  split
  · exact he
  · exact List.mem_append_left _ he

theorem insertEvent_keys (rows : List EventRow) (row : EventRow)
    (h : (rows.map EventRow.revision).Nodup) :
    ((insertEvent rows row).map EventRow.revision).Nodup := by
  unfold insertEvent
  split
  · exact h
  · rename_i hn
    rw [List.map_append, List.map_singleton]
    exact List.nodup_append.mpr ⟨h, List.nodup_singleton _, by
      intro a ha b hb
      obtain rfl : b = row.revision := by simpa using hb
      exact fun e => hn (e ▸ ha)⟩

/-- One committed `save` transaction. -/
def Journal.save (j : Journal) (v : Snapshot) : Journal where
  identity := j.identity
  commands := upsertCommand j.commands (commandRow v)
  events := insertEvent j.events (eventRow v)
  head := max j.head v.revision
  historyGap := j.historyGap
  commandsKey := upsertCommand_keys _ _ j.commandsKey
  eventsKey := insertEvent_keys _ _ j.eventsKey
  eventsData := by
    intro e he
    rcases mem_insertEvent he with h | rfl
    · exact j.eventsData e h
    · exact ⟨rfl, rfl⟩

/-- `SELECT rowid FROM commands WHERE finished=1 ORDER BY revision DESC LIMIT -1 OFFSET ?`;
SQLite reads a negative offset as zero. -/
def surplus (rows : List CommandRow) (keepCount : Int) : List (String × String) :=
  (((rows.filter (·.finished)).insertionSort fun a b => b.revision ≤ a.revision).drop
    keepCount.toNat).map CommandRow.primaryKey

def expires (rows : List CommandRow) (cutoff : String) (keepCount : Int) (c : CommandRow) : Bool :=
  c.finished && (textLt c.updated cutoff || decide (c.primaryKey ∈ surplus rows keepCount))

/-- One committed `prune_journal` transaction; `journal_meta.head` survives it. -/
def Journal.prune (j : Journal) (cutoff : String) (keepCount : Int) : Journal where
  identity := j.identity
  commands := j.commands.filter fun c => !expires j.commands cutoff keepCount c
  events := j.events.filter fun e =>
    (j.commands.filter fun c => !expires j.commands cutoff keepCount c).any fun c =>
      c.manager == e.manager && c.id == e.id
  head := j.head
  historyGap := j.historyGap
  commandsKey := j.commandsKey.sublist (List.filter_sublist.map _)
  eventsKey := j.eventsKey.sublist (List.filter_sublist.map _)
  eventsData := fun e he => j.eventsData e (List.mem_filter.mp he).1

/-- The highest revision the file has reached, pruned rows included. -/
def Journal.lastRevision (j : Journal) : Nat :=
  (j.events.map EventRow.revision).foldl max j.head

theorem foldl_max_le {l : List Nat} {a b : Nat} : l.foldl max a ≤ b ↔ a ≤ b ∧ ∀ x ∈ l, x ≤ b := by
  induction l generalizing a with
  | nil => simp
  | cons x l ih =>
    rw [List.foldl_cons, ih, Nat.max_le, List.forall_mem_cons]
    exact and_assoc

theorem Journal.event_le_last (j : Journal) {e : EventRow} (h : e ∈ j.events) :
    e.revision ≤ j.lastRevision :=
  (foldl_max_le.mp (le_refl j.lastRevision)).2 _ (List.mem_map_of_mem h)

theorem Journal.head_le_last (j : Journal) : j.head ≤ j.lastRevision :=
  (foldl_max_le.mp (le_refl j.lastRevision)).1

theorem Journal.last_le_save (j : Journal) (v : Snapshot) :
    j.lastRevision ≤ (j.save v).lastRevision := by
  refine foldl_max_le.mpr ⟨?_, ?_⟩
  · exact (le_max_left j.head v.revision).trans (j.save v).head_le_last
  · intro r hr
    obtain ⟨e, he, rfl⟩ := List.mem_map.mp hr
    exact (j.save v).event_le_last (subset_insertEvent _ _ he)

theorem Journal.save_last_le (j : Journal) (v : Snapshot) {b : Nat}
    (hj : j.lastRevision ≤ b) (hv : v.revision ≤ b) : (j.save v).lastRevision ≤ b := by
  refine foldl_max_le.mpr ⟨max_le (j.head_le_last.trans hj) hv, ?_⟩
  intro r hr
  obtain ⟨e, he, rfl⟩ := List.mem_map.mp hr
  rcases mem_insertEvent he with h | rfl
  · exact (j.event_le_last h).trans hj
  · exact hv

/-! ## Paging -/

/-- The answer to `Request::Events`. -/
structure Page where
  items : List Snapshot
  nextCursor : Nat
  oldestRevision : Nat
  historyGap : Bool
  deriving DecidableEq

/-- `SELECT COALESCE(MIN(revision),0) FROM events`. -/
def oldestRevision (rows : List EventRow) : Nat :=
  ((rows.map EventRow.revision).min?).getD 0

def EventRow.Before (a b : EventRow) : Prop := a.revision ≤ b.revision

instance : DecidableRel EventRow.Before := fun a b => Nat.decLe a.revision b.revision

instance : Std.Total EventRow.Before := ⟨fun a b => Nat.le_total a.revision b.revision⟩

instance : IsTrans EventRow EventRow.Before := ⟨fun _ _ _ h k => Nat.le_trans h k⟩

def inWindow (manager : String) (after ceiling : Nat) (e : EventRow) : Bool :=
  e.manager == manager && decide (after < e.revision) && decide (e.revision ≤ ceiling)

/-- `WHERE manager=? AND revision>? AND revision<=? ORDER BY revision LIMIT ?`. -/
def pageRows (rows : List EventRow) (manager : String) (after ceiling limit : Nat) : List EventRow :=
  ((rows.filter (inWindow manager after ceiling)).insertionSort EventRow.Before).take limit

/-- The loop over the selected rows stops before the row that would take the
answer past 1 MiB. The first row is always taken. -/
def pageItems (rawLen : Snapshot → Nat) : Nat → List Snapshot → List EventRow → List Snapshot
  | _, items, [] => items
  | bytes, items, e :: rest =>
    if !items.isEmpty && decide (1024 * 1024 < bytes + rawLen e.data) then items
    else pageItems rawLen (bytes + rawLen e.data) (items ++ [e.data]) rest

def cursorAfter (after : Nat) (items : List Snapshot) : Nat :=
  (items.getLast?.map Snapshot.revision).getD after

/-- `history_gap` of an answer: the flag, or a cursor below the surviving rows. -/
def gapAnnounced (gap : Bool) (after oldest : Nat) : Bool :=
  gap || (decide (0 < after) && decide (after < oldest - 1))

/-- The `Request::Events` branch once `ceiling` and `gap` were read from memory. -/
def Journal.page (rawLen : Snapshot → Nat) (j : Journal) (gap : Bool) (ceiling : Nat)
    (manager : String) (after limit : Nat) : Page :=
  let items := pageItems rawLen 0 [] (pageRows j.events manager after ceiling limit)
  let oldest := oldestRevision j.events
  { items := items
    nextCursor := cursorAfter after items
    oldestRevision := oldest
    historyGap := gapAnnounced gap after oldest }

theorem pageItems_eq (rawLen : Snapshot → Nat) (bytes : Nat) (items : List Snapshot)
    (rows : List EventRow) :
    ∃ taken, taken <+: rows ∧ pageItems rawLen bytes items rows = items ++ taken.map EventRow.data ∧
      (items = [] → rows ≠ [] → taken ≠ []) := by
  induction rows generalizing bytes items with
  | nil => exact ⟨[], List.prefix_rfl, by simp [pageItems], fun _ h => absurd rfl h⟩
  | cons e rest ih =>
    rw [pageItems]
    split
    · rename_i hstop
      refine ⟨[], List.nil_prefix, by simp, ?_⟩
      intro hi
      simp [hi] at hstop
    · obtain ⟨taken, hp, heq, -⟩ := ih (bytes + rawLen e.data) (items ++ [e.data])
      refine ⟨e :: taken, List.cons_prefix_cons.mpr ⟨rfl, hp⟩, ?_, fun _ _ => List.cons_ne_nil _ _⟩
      rw [heq, List.map_cons, List.append_assoc]
      rfl

/-! ## Recovery -/

/-- What `open_database` writes for a command another process left unfinished. -/
def recovered (v : Snapshot) (revision : Nat) (now : String) : Snapshot :=
  { v with
    revision := revision
    phase := .unknown
    error := "lower restarted before durable completion; never replayed"
    auditIncomplete := true
    updatedAt := now }

/-- `SELECT data FROM commands WHERE finished=0`, without this boot's own rows. -/
def Journal.unfinished (j : Journal) (boot : String) : List Snapshot :=
  ((j.commands.filter (!·.finished)).map CommandRow.data).filter fun v => v.bootId != boot

/-- `lookup_journal` once the file could be read. -/
def Journal.lookup (j : Journal) (gateway manager command : String) :
    Except String (Option Snapshot) :=
  match j.identity with
  | none => .error "Query returned no rows"
  | some actual =>
    if actual ≠ gateway then
      .error "command journal instance mismatch; operator recovery required"
    else .ok ((j.commands.find? fun c => c.manager == manager && c.id == command).map CommandRow.data)

end RcdServer.Tracking
