import RcdServer.Tracking.Journal

/-!
# Retention against `history_gap`

A history is any sequence of committed `save` and `prune_journal` transactions.
Beside the journal it remembers the event rows that pruning has deleted, which
the file itself forgets. An `Events` answer compares the cursor with the oldest
row of the whole journal, while pruning deletes all rows of a finished command.
-/
namespace RcdServer.Tracking

/-- A committed transaction on the journal. -/
inductive Transaction where
  | save (v : Snapshot)
  | prune (cutoff : String) (keepCount : Int)

structure History where
  journal : Journal
  deleted : List EventRow

def History.empty : History := ⟨Journal.empty, []⟩

def History.commit (h : History) : Transaction → History
  | .save v => { h with journal := h.journal.save v }
  | .prune cutoff keepCount =>
    let journal := h.journal.prune cutoff keepCount
    { journal := journal
      deleted := h.deleted ++ h.journal.events.filter fun e => !decide (e ∈ journal.events) }

def History.run (ts : List Transaction) : History := ts.foldl History.commit History.empty

/-- Every request with a cursor below a deleted row of its manager hears about a gap. -/
def History.Announced (h : History) (rawLen : Snapshot → Nat) (gap : Bool) : Prop :=
  ∀ (manager : String) (after ceiling limit : Nat), 0 < after →
    (∃ e ∈ h.deleted, e.manager = manager ∧ after < e.revision) →
      (h.journal.page rawLen gap ceiling manager after limit).historyGap = true

/-- The deleted rows past revision 1 all lie below what is left of the journal. -/
def History.DeletedBelow (h : History) : Prop :=
  ∀ e ∈ h.deleted, 1 < e.revision →
    h.journal.events ≠ [] ∧ ∀ row ∈ h.journal.events, e.revision < row.revision

theorem oldestRevision_le {rows : List EventRow} {row : EventRow} (h : row ∈ rows) :
    oldestRevision rows ≤ row.revision := by
  have hm : row.revision ∈ rows.map EventRow.revision := List.mem_map_of_mem h
  unfold oldestRevision
  cases hmin : (rows.map EventRow.revision).min? with
  | none => simp
  | some r => exact (List.min?_eq_some_iff.mp hmin).2 _ hm

theorem oldestRevision_mem {rows : List EventRow} (h : rows ≠ []) :
    ∃ row ∈ rows, row.revision = oldestRevision rows := by
  unfold oldestRevision
  cases hmin : (rows.map EventRow.revision).min? with
  | none => simp [h] at hmin
  | some r => exact List.mem_map.mp (List.min?_eq_some_iff.mp hmin).1

/-- A revision is below the oldest row exactly when it is below every row and there is one. -/
theorem lt_oldestRevision_iff (rows : List EventRow) (r : Nat) :
    r < oldestRevision rows ↔ rows ≠ [] ∧ ∀ row ∈ rows, r < row.revision := by
  constructor
  · intro h
    refine ⟨?_, fun row hrow => h.trans_le (oldestRevision_le hrow)⟩
    rintro rfl
    simp [oldestRevision] at h
  · rintro ⟨hne, hall⟩
    obtain ⟨row, hrow, heq⟩ := oldestRevision_mem hne
    rw [← heq]
    exact hall row hrow

theorem gapAnnounced_iff {gap : Bool} {after oldest : Nat} (h : 0 < after) :
    gapAnnounced gap after oldest = true ↔ gap = true ∨ after + 1 < oldest := by
  have hlt : (0 < after ∧ after < oldest - 1) ↔ after + 1 < oldest := by omega
  simp only [gapAnnounced, Bool.or_eq_true, Bool.and_eq_true, decide_eq_true_eq, hlt]

/-- After any history the gap answer is complete exactly when the flag is set or no
deleted row lies above a surviving one. -/
theorem history_announced_iff (ts : List Transaction) (rawLen : Snapshot → Nat) (gap : Bool) :
    (History.run ts).Announced rawLen gap ↔ gap = true ∨ (History.run ts).DeletedBelow := by
  generalize History.run ts = h
  constructor
  · intro hann
    by_cases hg : gap = true
    · exact .inl hg
    · refine .inr fun e he hrev => ?_
      -- the sharpest cursor for a deleted row is the one right below it
      have hpage := hann e.manager (e.revision - 1) 0 0 (by omega) ⟨e, he, rfl, by omega⟩
      have hlt := (gapAnnounced_iff (by omega)).mp hpage
      have : e.revision < oldestRevision h.journal.events := by
        rcases hlt with hlt | hlt
        · exact absurd hlt hg
        · omega
      exact (lt_oldestRevision_iff _ _).mp this
  · rintro hcond manager after ceiling limit hpos ⟨e, he, -, hlt⟩
    refine (gapAnnounced_iff hpos).mpr ?_
    rcases hcond with hg | hbelow
    · exact .inl hg
    · have := (lt_oldestRevision_iff _ _).mpr (hbelow e he (by omega))
      exact .inr (by omega)

/-- A snapshot with nothing but identity, phase, revision and time filled in. -/
def evidence (manager command : String) (phase : Phase) (revision : Nat) (updated : String) :
    Snapshot :=
  { schemaVersion := 1, managerInstanceId := manager, commandId := command,
    gatewayInstanceId := "g", bootId := "b", portId := "COM1", ackId := "1", requestHash := "",
    requestPreview := "", deviceId := "", accepted := false, statusCode := 0, phase := phase,
    attemptCount := 0, sentCount := 0, attempts := [], error := "", revision := revision,
    startedAt := updated, updatedAt := updated, auditIncomplete := false }

/-- An old unfinished command keeps revision 1 alive while the two rows of a finished one
are deleted above it, so the cursor 1 is told that nothing is missing. -/
theorem unfinished_command_hides_deletion :
    ¬ (History.run
        [.save (evidence "m" "open" .executing 1 "2024-01-01T00:00:00.000Z"),
         .save (evidence "m" "done" .accepted 2 "2024-01-01T00:00:01.000Z"),
         .save (evidence "m" "done" .ackReceived 3 "2024-01-01T00:00:02.000Z"),
         .prune "2024-01-09T00:00:00+00:00" 100000]).Announced (fun _ => 500) false := by
  intro h
  have hgap := h "m" 1 3 200 (by decide)
    ⟨eventRow (evidence "m" "done" .ackReceived 3 "2024-01-01T00:00:02.000Z"), by decide, rfl, by decide⟩
  exact absurd hgap (by decide)

end RcdServer.Tracking
