import RcdServer.Catalog.Union
import RcdServer.Lib.Run
import Mathlib.Logic.Function.Basic

/-!
# Catalog persistence

`catalogPersistence` of `app/catalog_delivery.go`. A snapshot is queued under the state mutex; a
call that saves or flushes holds the writer mutex and, for one source after the other, takes the
pending snapshot, writes it without the state mutex and merges the outcome. Every section under the
state mutex is one step, so that any of them may fall between the parts of a write.
-/
namespace RcdServer.Catalog.Persistence

open Lib Lib.Run

/-- `catalogWrite`. The 64 bits of a version are not exhausted. -/
structure CatalogWrite where
  catalog : SourceCatalog
  version : Nat
  errorText : String
  deriving DecidableEq

def CatalogWrite.snapshot (e : CatalogWrite) : SourceCatalog × Nat := (e.catalog, e.version)

/-- Who has called `persistSource`: a save with its own snapshot, or a flush with the sources that
are left. -/
inductive Caller where
  | save (catalog : SourceCatalog) (version : Nat)
  | flush (ids : List String)
  deriving DecidableEq

/-- Where a call stands. From `listing` on it holds the writer mutex. -/
inductive Thread where
  | idle
  | waiting (caller : Caller)
  | listing
  -- At the head of the loop of `flush`.
  | looking (ids : List String)
  | reading (caller : Caller) (id : String)
  -- Inside `s.write`.
  | writing (caller : Caller) (id : String) (entry : CatalogWrite)
  | merging (caller : Caller) (id : String) (entry : CatalogWrite) (error : Option String)
  | leaving (caller : Caller) (error : Option String)
  deriving DecidableEq

def Thread.holds : Thread → Bool
  | .idle => false
  | .waiting _ => false
  | _ => true

/-- What has happened; the code keeps no such record. -/
inductive Event where
  | queued (catalog : SourceCatalog) (version : Nat)
  | discarded (id : String)
  | written (catalog : SourceCatalog) (version : Nat)
  | saved (catalog : SourceCatalog) (version : Nat) (error : Option String)
  deriving DecidableEq

structure State where
  sequence : Nat
  pending : Map String CatalogWrite
  -- Who holds `writerMu`.
  writer : Option Nat
  threads : Nat → Thread
  -- Newest first.
  history : List Event

namespace State

def queue (s : State) (catalog : SourceCatalog) : State :=
  let previous := ((s.pending.lookup catalog.sourceID).map (·.errorText)).getD ""
  { s with
    sequence := s.sequence + 1
    pending := s.pending.insert catalog.sourceID ⟨catalog, s.sequence + 1, previous⟩
    history := .queued catalog (s.sequence + 1) :: s.history }

def discard (s : State) (id : String) : State :=
  { s with pending := s.pending.erase id, history := .discarded id :: s.history }

def contains (s : State) (id : String) : Bool := (s.pending.lookup id).isSome

/-- One round of the loop of `status`. -/
def latestError (x : Nat × String) (entry : CatalogWrite) : Nat × String :=
  if entry.errorText ≠ "" ∧ entry.version ≥ x.1 then (entry.version, entry.errorText) else x

def status (s : State) : Nat × String :=
  (s.pending.entries.length, ((s.pending.entries.map (·.2)).foldl latestError (0, "")).2)

/-- `newCatalogPersistence`, with the catalogs in the order of the iteration. -/
def new (catalogs : List SourceCatalog) : State :=
  catalogs.foldl queue ⟨0, ∅, none, fun _ => .idle, []⟩

def setThread (s : State) (t : Nat) (thread : Thread) : State :=
  { s with threads := Function.update s.threads t thread }

/-- The end of `persistSource`: a save returns its error, a flush goes on. -/
def finish (caller : Caller) (error : Option String) : Thread :=
  match caller with
  | .save .. => .leaving caller error
  | .flush ids => .looking ids

/-- What `persistSource` does after the write. -/
def merge (pending : Map String CatalogWrite) (id : String) (entry : CatalogWrite)
    (error : Option String) : Map String CatalogWrite :=
  match pending.lookup id with
  | none => pending
  | some current =>
    if current.version = entry.version then
      match error with
      | none => pending.erase id
      | some text => pending.insert id { current with errorText := text }
    else pending

end State

inductive Action where
  | queue (catalog : SourceCatalog)
  | discard (id : String)
  | save (t : Nat) (catalog : SourceCatalog)
  | flush (t : Nat)
  | lock (t : Nat)
  | list (t : Nat) (ids : List String)
  | look (t : Nat) (cancelled : Bool)
  | read (t : Nat)
  | write (t : Nat) (error : Option String)
  | merge (t : Nat)
  | unlock (t : Nat)
  deriving DecidableEq

namespace State

def start (s : State) (t : Nat) (caller : Caller) : Option State :=
  match s.threads t with
  | .idle => some (s.setThread t (.waiting caller))
  | _ => none

def lock (s : State) (t : Nat) : Option State :=
  match s.threads t, s.writer with
  | .waiting (.save catalog version), none =>
    some ({ s with writer := some t }.setThread t
      (.reading (.save catalog version) catalog.sourceID))
  | .waiting (.flush _), none => some ({ s with writer := some t }.setThread t .listing)
  | _, _ => none

/-- The iteration over the map has no order. -/
def list (s : State) (t : Nat) (ids : List String) : Option State :=
  match s.threads t with
  | .listing => if ids.isPerm s.pending.keys then some (s.setThread t (.looking ids)) else none
  | _ => none

def look (s : State) (t : Nat) (cancelled : Bool) : Option State :=
  match s.threads t with
  | .looking [] => some (s.setThread t (.leaving (.flush []) none))
  | .looking (id :: ids) =>
    some (s.setThread t
      (if cancelled then .leaving (.flush ids) none else .reading (.flush ids) id))
  | _ => none

def read (s : State) (t : Nat) : Option State :=
  match s.threads t with
  | .reading caller id =>
    match s.pending.lookup id with
    | none => some (s.setThread t (finish caller none))
    | some entry => some (s.setThread t (.writing caller id entry))
  | _ => none

/-- The call of the database returns. -/
def write (s : State) (t : Nat) (error : Option String) : Option State :=
  match s.threads t with
  | .writing caller id entry =>
    let history := if error.isNone then .written entry.catalog entry.version :: s.history
      else s.history
    some ({ s with history := history }.setThread t (.merging caller id entry error))
  | _ => none

def mergeStep (s : State) (t : Nat) : Option State :=
  match s.threads t with
  | .merging caller id entry error =>
    some ({ s with pending := merge s.pending id entry error }.setThread t (finish caller error))
  | _ => none

def unlock (s : State) (t : Nat) : Option State :=
  match s.threads t with
  | .leaving (.save catalog version) error =>
    some ({ s with
      writer := none
      history := .saved catalog version error :: s.history }.setThread t .idle)
  | .leaving (.flush _) _ => some ({ s with writer := none }.setThread t .idle)
  | _ => none

def step (s : State) : Action → Option State
  | .queue catalog => some (s.queue catalog)
  | .discard id => some (s.discard id)
  | .save t catalog => (s.queue catalog).start t (.save catalog (s.sequence + 1))
  | .flush t => s.start t (.flush [])
  | .lock t => s.lock t
  | .list t ids => s.list t ids
  | .look t cancelled => s.look t cancelled
  | .read t => s.read t
  | .write t error => s.write t error
  | .merge t => s.mergeStep t
  | .unlock t => s.unlock t

end State

/-! ## What the history says of a source -/

def lastWritten (id : String) : List Event → Option (SourceCatalog × Nat)
  | [] => none
  | .written c v :: history => if c.sourceID = id then some (c, v) else lastWritten id history
  | .queued .. :: history => lastWritten id history
  | .discarded _ :: history => lastWritten id history
  | .saved .. :: history => lastWritten id history

/-- The newest snapshot of the source that has not been discarded since. -/
def newest (id : String) : List Event → Option (SourceCatalog × Nat)
  | [] => none
  | .queued c v :: history => if c.sourceID = id then some (c, v) else newest id history
  | .discarded i :: history => if i = id then none else newest id history
  | .written .. :: history => newest id history
  | .saved .. :: history => newest id history

/-- The snapshot has been queued and its source not discarded since. -/
def Standing (c : SourceCatalog) (v : Nat) (history : List Event) : Prop :=
  ∃ later earlier, history = later ++ .queued c v :: earlier ∧ .discarded c.sourceID ∉ later

/-- Every successful write of a source is of a newer snapshot than the one before. -/
def Increasing (history : List Event) : Prop :=
  history.Pairwise fun later earlier => ∀ c v c' v', later = .written c v →
    earlier = .written c' v' → c.sourceID = c'.sourceID → v' < v

/-- Versions are given in the order of the queue. -/
def Numbered (history : List Event) : Prop :=
  history.Pairwise fun later earlier => ∀ c v c' v', later = .queued c v →
    earlier = .queued c' v' → v' < v

/-! ## Histories -/

section Histories

variable {history : List Event} {c c' : SourceCatalog} {v v' : Nat} {id : String}

theorem standing_cons {e : Event} : Standing c v (e :: history) ↔
    e = .queued c v ∨ e ≠ .discarded c.sourceID ∧ Standing c v history := by
  constructor
  · rintro ⟨later, earlier, hsplit, hlater⟩
    cases later with
    | nil => exact .inl (List.cons.inj hsplit).1
    | cons e' later =>
      obtain ⟨rfl, rfl⟩ := List.cons.inj hsplit
      rw [List.mem_cons, not_or] at hlater
      exact .inr ⟨Ne.symm hlater.1, later, earlier, rfl, hlater.2⟩
  · rintro (rfl | ⟨hne, later, earlier, rfl, hlater⟩)
    · exact ⟨[], history, rfl, List.not_mem_nil⟩
    · refine ⟨e :: later, earlier, rfl, ?_⟩
      rw [List.mem_cons, not_or]
      exact ⟨Ne.symm hne, hlater⟩

theorem Standing.mem (h : Standing c v history) : .queued c v ∈ history := by
  obtain ⟨later, earlier, rfl, -⟩ := h
  simp

theorem Numbered.unique (h : Numbered history) (hc : .queued c v ∈ history)
    (hc' : .queued c' v ∈ history) : c = c' := by
  induction history with
  | nil => cases hc
  | cons e history ih =>
    obtain ⟨hfirst, hrest⟩ := List.pairwise_cons.mp h
    rcases List.mem_cons.mp hc with rfl | hmem
    · rcases List.mem_cons.mp hc' with heq | hmem'
      · cases heq
        rfl
      · exact absurd (hfirst _ hmem' c v c' v rfl rfl) (Nat.lt_irrefl v)
    · rcases List.mem_cons.mp hc' with rfl | hmem'
      · exact absurd (hfirst _ hmem c' v c v rfl rfl) (Nat.lt_irrefl v)
      · exact ih hrest hmem hmem'

theorem mem_of_newest (h : newest id history = some (c, v)) :
    .queued c v ∈ history ∧ c.sourceID = id := by
  induction history with
  | nil => cases h
  | cons e history ih =>
    cases e with
    | queued c' v' =>
      rw [newest] at h
      split at h
      · rename_i hid
        cases h
        exact ⟨List.mem_cons_self, hid⟩
      · exact ⟨List.mem_cons_of_mem _ (ih h).1, (ih h).2⟩
    | discarded i =>
      rw [newest] at h
      split at h
      · cases h
      · exact ⟨List.mem_cons_of_mem _ (ih h).1, (ih h).2⟩
    | written c' v' => exact ⟨List.mem_cons_of_mem _ (ih h).1, (ih h).2⟩
    | saved c' v' error => exact ⟨List.mem_cons_of_mem _ (ih h).1, (ih h).2⟩

/-- The newest snapshot stands for every older one that has not been discarded. -/
theorem newest_of_standing (hn : Numbered history) (h : Standing c v history) :
    ∃ c' v', newest c.sourceID history = some (c', v') ∧ v ≤ v' := by
  induction history with
  | nil =>
    obtain ⟨later, earlier, hsplit, -⟩ := h
    simp at hsplit
  | cons e history ih =>
    obtain ⟨hfirst, hrest⟩ := List.pairwise_cons.mp hn
    rcases standing_cons.mp h with rfl | ⟨hne, hstanding⟩
    · exact ⟨c, v, if_pos rfl, le_rfl⟩
    cases e with
    | queued c' v' =>
      by_cases hid : c'.sourceID = c.sourceID
      · exact ⟨c', v', if_pos hid, (hfirst _ hstanding.mem c' v' c v rfl rfl).le⟩
      · rw [newest, if_neg hid]
        exact ih hrest hstanding
    | discarded i =>
      have hid : i ≠ c.sourceID := fun heq => hne (congrArg _ heq)
      rw [newest, if_neg hid]
      exact ih hrest hstanding
    | written c' v' => exact ih hrest hstanding
    | saved c' v' error => exact ih hrest hstanding

theorem mem_of_lastWritten (h : lastWritten id history = some (c, v)) :
    .written c v ∈ history := by
  induction history with
  | nil => cases h
  | cons e history ih =>
    cases e with
    | written c' v' =>
      rw [lastWritten] at h
      split at h
      · cases h
        exact List.mem_cons_self
      · exact List.mem_cons_of_mem _ (ih h)
    | queued c' v' => exact List.mem_cons_of_mem _ (ih h)
    | discarded i => exact List.mem_cons_of_mem _ (ih h)
    | saved c' v' error => exact List.mem_cons_of_mem _ (ih h)

theorem Increasing.le_last (h : Increasing history) (hlast : lastWritten id history = some (c, v))
    (hmem : .written c' v' ∈ history) (hid : c'.sourceID = id) : v' ≤ v := by
  induction history with
  | nil => cases hmem
  | cons e history ih =>
    obtain ⟨hfirst, hrest⟩ := List.pairwise_cons.mp h
    cases e with
    | written c₁ v₁ =>
      rw [lastWritten] at hlast
      split at hlast
      · rename_i hid₁
        cases hlast
        rcases List.mem_cons.mp hmem with heq | hmem
        · cases heq
          exact le_rfl
        · exact (hfirst _ hmem c v c' v' rfl rfl (hid₁.trans hid.symm)).le
      · rename_i hid₁
        rcases List.mem_cons.mp hmem with heq | hmem
        · cases heq
          exact absurd hid hid₁
        · exact ih hrest hlast hmem
    | queued c₁ v₁ => exact ih hrest hlast ((List.mem_cons.mp hmem).resolve_left nofun)
    | discarded i => exact ih hrest hlast ((List.mem_cons.mp hmem).resolve_left nofun)
    | saved c₁ v₁ error => exact ih hrest hlast ((List.mem_cons.mp hmem).resolve_left nofun)

end Histories

/-! ## The pending snapshots and the history -/

/-- Every write of the source so far is of an older snapshot. -/
def Behind (history : List Event) (id : String) (v : Nat) : Prop :=
  ∀ c v', .written c v' ∈ history → c.sourceID = id → v' < v

structure Ledger (sequence : Nat) (pending : Map String CatalogWrite) (history : List Event) :
    Prop where
  numbered : Numbered history
  bounded : ∀ c v, .queued c v ∈ history → v ≤ sequence
  owned : ∀ c v, .written c v ∈ history → .queued c v ∈ history
  increasing : Increasing history
  entries : ∀ id e, pending.lookup id = some e → newest id history = some e.snapshot
  drained : ∀ id, pending.lookup id = none →
    newest id history = none ∨ lastWritten id history = newest id history

/-- The entry that a call has read and not merged yet. -/
structure Taken (pending : Map String CatalogWrite) (history : List Event) (id : String)
    (entry : CatalogWrite) : Prop where
  queued : .queued entry.catalog entry.version ∈ history
  source : entry.catalog.sourceID = id
  newer : ∀ e, pending.lookup id = some e → entry.version ≤ e.version
  gone : pending.lookup id = none → newest id history = none

section Ledgers

variable {sequence : Nat} {pending : Map String CatalogWrite} {history : List Event}
variable {id : String} {entry : CatalogWrite}

theorem Ledger.queue (h : Ledger sequence pending history) (c : SourceCatalog) (text : String) :
    Ledger (sequence + 1) (pending.insert c.sourceID ⟨c, sequence + 1, text⟩)
      (.queued c (sequence + 1) :: history) := by
  refine ⟨?_, ?_, ?_, ?_, ?_, ?_⟩
  · refine List.pairwise_cons.mpr ⟨?_, h.numbered⟩
    rintro e he c₁ v₁ c₂ v₂ hlater rfl
    cases hlater
    exact Nat.lt_succ_of_le (h.bounded c₂ v₂ he)
  · intro c' v' hmem
    rcases List.mem_cons.mp hmem with heq | hmem
    · cases heq
      exact le_rfl
    · exact Nat.le_succ_of_le (h.bounded c' v' hmem)
  · intro c' v' hmem
    exact List.mem_cons_of_mem _ (h.owned c' v' ((List.mem_cons.mp hmem).resolve_left nofun))
  · refine List.pairwise_cons.mpr ⟨?_, h.increasing⟩
    rintro e - c₁ v₁ c₂ v₂ hlater
    cases hlater
  · intro id e he
    rw [Map.lookup_insert_eq] at he
    split at he
    · rename_i hid
      cases he
      exact if_pos hid.symm
    · rename_i hid
      rw [newest, if_neg (Ne.symm hid)]
      exact h.entries id e he
  · intro id hnone
    rw [Map.lookup_insert_eq] at hnone
    split at hnone
    · cases hnone
    · rename_i hid
      rw [newest, if_neg (Ne.symm hid), lastWritten]
      exact h.drained id hnone

theorem Ledger.discard (h : Ledger sequence pending history) (i : String) :
    Ledger sequence (pending.erase i) (.discarded i :: history) := by
  refine ⟨?_, ?_, ?_, ?_, ?_, ?_⟩
  · refine List.pairwise_cons.mpr ⟨?_, h.numbered⟩
    rintro e - c₁ v₁ c₂ v₂ hlater
    cases hlater
  · intro c v hmem
    exact h.bounded c v ((List.mem_cons.mp hmem).resolve_left nofun)
  · intro c v hmem
    exact List.mem_cons_of_mem _ (h.owned c v ((List.mem_cons.mp hmem).resolve_left nofun))
  · refine List.pairwise_cons.mpr ⟨?_, h.increasing⟩
    rintro e - c₁ v₁ c₂ v₂ hlater
    cases hlater
  · intro id e he
    rw [Map.lookup_erase_eq] at he
    split at he
    · cases he
    · rename_i hid
      rw [newest, if_neg (Ne.symm hid)]
      exact h.entries id e he
  · intro id hnone
    by_cases hid : id = i
    · exact .inl (if_pos hid.symm)
    · rw [Map.lookup_erase_eq, if_neg hid] at hnone
      rw [newest, if_neg (Ne.symm hid), lastWritten]
      exact h.drained id hnone

theorem Ledger.write (h : Ledger sequence pending history) (htaken : Taken pending history id entry)
    (hbehind : Behind history id entry.version) :
    Ledger sequence pending (.written entry.catalog entry.version :: history) := by
  refine ⟨?_, ?_, ?_, ?_, h.entries, ?_⟩
  · refine List.pairwise_cons.mpr ⟨?_, h.numbered⟩
    rintro e - c₁ v₁ c₂ v₂ hlater
    cases hlater
  · intro c v hmem
    exact h.bounded c v ((List.mem_cons.mp hmem).resolve_left nofun)
  · intro c v hmem
    rcases List.mem_cons.mp hmem with heq | hmem
    · cases heq
      exact List.mem_cons_of_mem _ htaken.queued
    · exact List.mem_cons_of_mem _ (h.owned c v hmem)
  · refine List.pairwise_cons.mpr ⟨?_, h.increasing⟩
    rintro e he c₁ v₁ c₂ v₂ hlater rfl hid
    cases hlater
    exact hbehind c₂ v₂ he (hid.symm.trans htaken.source)
  · intro i hnone
    by_cases hi : entry.catalog.sourceID = i
    · obtain rfl : id = i := htaken.source.symm.trans hi
      exact .inl (htaken.gone hnone)
    · rw [newest, lastWritten, if_neg hi]
      exact h.drained i hnone

theorem Ledger.saved (h : Ledger sequence pending history) (c : SourceCatalog) (v : Nat)
    (error : Option String) : Ledger sequence pending (.saved c v error :: history) := by
  refine ⟨?_, ?_, ?_, ?_, h.entries, h.drained⟩
  · refine List.pairwise_cons.mpr ⟨?_, h.numbered⟩
    rintro e - c₁ v₁ c₂ v₂ hlater
    cases hlater
  · intro c v hmem
    exact h.bounded c v ((List.mem_cons.mp hmem).resolve_left nofun)
  · intro c v hmem
    exact List.mem_cons_of_mem _ (h.owned c v ((List.mem_cons.mp hmem).resolve_left nofun))
  · refine List.pairwise_cons.mpr ⟨?_, h.increasing⟩
    rintro e - c₁ v₁ c₂ v₂ hlater
    cases hlater

theorem Ledger.queued_of_entry (h : Ledger sequence pending history)
    (he : pending.lookup id = some entry) :
    .queued entry.catalog entry.version ∈ history ∧ entry.catalog.sourceID = id :=
  mem_of_newest (h.entries id entry he)

/-- What the merge leaves of the pending snapshots. -/
theorem lookup_merge (pending : Map String CatalogWrite) (id : String) (entry : CatalogWrite)
    (error : Option String) (i : String) :
    (State.merge pending id entry error).lookup i = pending.lookup i ∨
      ∃ current, i = id ∧ pending.lookup id = some current ∧ current.version = entry.version ∧
        (error = none ∧ (State.merge pending id entry error).lookup i = none ∨
          ∃ text, error = some text ∧ (State.merge pending id entry error).lookup i =
            some { current with errorText := text }) := by
  unfold State.merge
  cases hlookup : pending.lookup id with
  | none => exact .inl rfl
  | some current =>
    dsimp only
    split
    · rename_i hversion
      cases error with
      | none =>
        rw [Map.lookup_erase_eq]
        split
        · exact .inr ⟨current, ‹_›, rfl, hversion, .inl ⟨rfl, rfl⟩⟩
        · exact .inl rfl
      | some text =>
        dsimp only
        rw [Map.lookup_insert_eq]
        split
        · exact .inr ⟨current, ‹_›, rfl, hversion, .inr ⟨text, rfl, rfl⟩⟩
        · exact .inl rfl
    · exact .inl rfl

theorem Ledger.merge (h : Ledger sequence pending history) {error : Option String}
    (htaken : Taken pending history id entry)
    (hlast : error = none → lastWritten id history = some entry.snapshot) :
    Ledger sequence (State.merge pending id entry error) history := by
  refine ⟨h.numbered, h.bounded, h.owned, h.increasing, ?_, ?_⟩
  · intro i e he
    rcases lookup_merge pending id entry error i with
      hsame | ⟨current, rfl, hcurrent, -, ⟨-, hnone⟩ | ⟨text, -, hsome⟩⟩
    · exact h.entries i e (hsame ▸ he)
    · rw [hnone] at he
      cases he
    · rw [hsome] at he
      cases he
      exact h.entries i current hcurrent
  · intro i hi
    rcases lookup_merge pending id entry error i with
      hsame | ⟨current, rfl, hcurrent, hversion, ⟨herror, -⟩ | ⟨text, -, hsome⟩⟩
    · exact h.drained i (hsame ▸ hi)
    · right
      have hqueued := (h.queued_of_entry hcurrent).1
      rw [hversion] at hqueued
      have hcatalog := h.numbered.unique hqueued htaken.queued
      rw [hlast herror, h.entries i current hcurrent, CatalogWrite.snapshot, CatalogWrite.snapshot,
        hcatalog, hversion]
    · rw [hsome] at hi
      cases hi

end Ledgers

/-! ## The calls -/

/-- The source of a save is the one that it writes. -/
def Knows (history : List Event) (id : String) : Caller → Prop
  | .save c v => .queued c v ∈ history ∧ c.sourceID = id
  | .flush _ => True

/-- A save that has not been overtaken by a discard is served by the version. -/
def Covers (history : List Event) (served : Nat) : Caller → Prop
  | .save c v => Standing c v history → v ≤ served
  | .flush _ => True

/-- The snapshot or a newer one is stored. -/
def Stored (history : List Event) (c : SourceCatalog) (v : Nat) : Prop :=
  ∃ c' v', lastWritten c.sourceID history = some (c', v') ∧ v ≤ v'

def Sound (pending : Map String CatalogWrite) (history : List Event) : Thread → Prop
  | .idle => True
  | .waiting caller => ∃ id, Knows history id caller
  | .listing => True
  | .looking _ => True
  | .reading caller id => Knows history id caller
  | .writing caller id entry => Taken pending history id entry ∧
      Behind history id entry.version ∧
      Knows history id caller ∧ Covers history entry.version caller
  | .merging caller id entry error => Taken pending history id entry ∧
      (error = none → lastWritten id history = some entry.snapshot) ∧
      (error ≠ none → Behind history id entry.version) ∧
      Knows history id caller ∧ Covers history entry.version caller
  | .leaving (.save c v) none => .queued c v ∈ history ∧
      (Standing c v history → Stored history c v)
  | .leaving _ _ => True

/-- A successful write of the source waits to be merged. -/
def Merging (threads : Nat → Thread) (id : String) : Prop :=
  ∃ t caller entry, threads t = .merging caller id entry none

structure Inv (s : State) : Prop where
  ledger : Ledger s.sequence s.pending s.history
  lock : ∀ t, (s.threads t).holds = true → s.writer = some t
  sound : ∀ t, Sound s.pending s.history (s.threads t)
  behind : ∀ id e, s.pending.lookup id = some e →
    Behind s.history id e.version ∨ Merging s.threads id
  saved : ∀ later earlier c v, s.history = later ++ .saved c v none :: earlier →
    Standing c v earlier → Stored earlier c v

section Calls

variable {s : State} {t : Nat} {thread : Thread} {pending pending' : Map String CatalogWrite}
variable {history history' : List Event} {caller : Caller} {id : String}

theorem Knows.mono (h : Knows history id caller) (hsub : ∀ e ∈ history, e ∈ history') :
    Knows history' id caller := by
  cases caller with
  | save c v => exact ⟨hsub _ h.1, h.2⟩
  | flush ids => trivial

/-- A call that does not hold the writer mutex depends on its own snapshot only. -/
theorem Sound.free (h : Sound pending history thread) (hfree : thread.holds = false)
    (hsub : ∀ e ∈ history, e ∈ history') : Sound pending' history' thread := by
  cases thread with
  | idle => trivial
  | waiting caller =>
    obtain ⟨id, hknows⟩ := h
    exact ⟨id, hknows.mono hsub⟩
  | _ => cases hfree

theorem forall_update {P : Thread → Prop} {threads : Nat → Thread} (ht : P thread)
    (hother : ∀ u, u ≠ t → P (threads u)) (u : Nat) : P (Function.update threads t thread u) := by
  by_cases hu : u = t
  · subst hu
    rwa [Function.update_self]
  · rw [Function.update_of_ne hu]
    exact hother u hu

theorem Inv.free (h : Inv s) (ht : (s.threads t).holds = true) (u : Nat) (hu : u ≠ t) :
    (s.threads u).holds = false := by
  by_contra hholds
  have hwriter := h.lock u (by simpa using hholds)
  exact hu (Option.some.inj (hwriter.symm.trans (h.lock t ht)))

theorem lock_update {threads : Nat → Thread} {writer writer' : Option Nat}
    (hlock : ∀ u, (threads u).holds = true → writer = some u)
    (ht : thread.holds = true → writer' = some t)
    (hother : ∀ u, u ≠ t → (threads u).holds = true → writer = writer') :
    ∀ u, (Function.update threads t thread u).holds = true → writer' = some u := by
  intro u hu
  by_cases hut : u = t
  · subst hut
    rw [Function.update_self] at hu
    exact ht hu
  · rw [Function.update_of_ne hut] at hu
    rw [← hother u hut hu]
    exact hlock u hu

theorem Merging.update {threads : Nat → Thread} (h : Merging threads id)
    (ht : ∀ caller entry, threads t ≠ .merging caller id entry none) :
    Merging (Function.update threads t thread) id := by
  obtain ⟨u, caller, entry, hu⟩ := h
  refine ⟨u, caller, entry, ?_⟩
  have hne : u ≠ t := by
    rintro rfl
    exact ht caller entry hu
  rw [Function.update_of_ne hne, hu]

/-- A step that moves the holder of the writer mutex only. -/
theorem Inv.move (h : Inv s) (ht : (s.threads t).holds = true)
    (hmerging : ∀ caller id entry, s.threads t ≠ .merging caller id entry none)
    (hsound : Sound s.pending s.history thread) : Inv (s.setThread t thread) := by
  refine ⟨h.ledger, ?_, ?_, ?_, h.saved⟩
  · refine lock_update h.lock (fun _ => h.lock t ht) ?_
    intro u hu hholds
    rw [h.free ht u hu] at hholds
    cases hholds
  · exact forall_update hsound fun u _ => h.sound u
  · intro id e he
    refine (h.behind id e he).imp_right fun hm => ?_
    exact hm.update fun caller entry => hmerging caller id entry

/-- A step that moves a call that does not hold the writer mutex. -/
theorem Inv.enter (h : Inv s) (ht : (s.threads t).holds = false) (hfree : thread.holds = false)
    (hsound : Sound s.pending s.history thread) : Inv (s.setThread t thread) := by
  refine ⟨h.ledger, ?_, ?_, ?_, h.saved⟩
  · refine lock_update h.lock ?_ fun _ _ _ => rfl
    intro hholds
    rw [hfree] at hholds
    cases hholds
  · exact forall_update hsound fun u _ => h.sound u
  · intro id e he
    refine (h.behind id e he).imp_right fun hm => hm.update ?_
    intro caller entry heq
    rw [heq] at ht
    cases ht

/-! ### Queue and discard -/

/-- What a step between the parts of a call has to leave. -/
theorem Sound.carry (h : Sound pending history thread) (hsub : ∀ e ∈ history, e ∈ history')
    (hlast : ∀ id, lastWritten id history' = lastWritten id history)
    (hbehind : ∀ id v, Behind history id v → Behind history' id v)
    (hstanding : ∀ c v, .queued c v ∈ history → Standing c v history' → Standing c v history)
    (htaken : ∀ id entry, Taken pending history id entry → Taken pending' history' id entry) :
    Sound pending' history' thread := by
  have hcovers : ∀ {caller id v}, Knows history id caller → Covers history v caller →
      Covers history' v caller := by
    intro caller id v hk hc
    cases caller with
    | save c v' => exact fun hs => hc (hstanding c v' hk.1 hs)
    | flush ids => trivial
  cases thread with
  | idle => trivial
  | waiting caller =>
    obtain ⟨id, hknows⟩ := h
    exact ⟨id, hknows.mono hsub⟩
  | listing => trivial
  | looking ids => trivial
  | reading caller id => exact Knows.mono h hsub
  | writing caller id entry =>
    obtain ⟨ht, hb, hk, hc⟩ := h
    exact ⟨htaken id entry ht, hbehind id _ hb, hk.mono hsub, hcovers hk hc⟩
  | merging caller id entry error =>
    obtain ⟨ht, hw, hb, hk, hc⟩ := h
    refine ⟨htaken id entry ht, ?_, fun he => hbehind id _ (hb he), hk.mono hsub, hcovers hk hc⟩
    rw [hlast]
    exact hw
  | leaving caller error =>
    cases caller with
    | flush ids => trivial
    | save c v =>
      cases error with
      | some text => trivial
      | none =>
        refine ⟨hsub _ h.1, fun hs => ?_⟩
        rw [Stored, hlast]
        exact h.2 (hstanding c v h.1 hs)

theorem Sound.queue {sequence : Nat} (h : Sound pending history thread)
    (hl : Ledger sequence pending history) (c : SourceCatalog) (text : String) :
    Sound (pending.insert c.sourceID ⟨c, sequence + 1, text⟩)
      (.queued c (sequence + 1) :: history) thread := by
  refine h.carry (fun e he => List.mem_cons_of_mem _ he) (fun _ => rfl) ?_ ?_ ?_
  · intro id v hb c' v' hmem
    exact hb c' v' ((List.mem_cons.mp hmem).resolve_left nofun)
  · intro c' v' hmem hs
    rcases standing_cons.mp hs with heq | ⟨-, hs⟩
    · cases heq
      exact absurd (hl.bounded c (sequence + 1) hmem) (Nat.not_succ_le_self sequence)
    · exact hs
  · intro id entry ht
    refine ⟨List.mem_cons_of_mem _ ht.queued, ht.source, ?_, ?_⟩
    · intro e he
      rw [Map.lookup_insert_eq] at he
      split at he
      · cases he
        exact Nat.le_succ_of_le (hl.bounded _ _ ht.queued)
      · exact ht.newer e he
    · intro hnone
      rw [Map.lookup_insert_eq] at hnone
      split at hnone
      · cases hnone
      · rename_i hid
        rw [newest, if_neg (Ne.symm hid)]
        exact ht.gone hnone

theorem Sound.discard (h : Sound pending history thread) (i : String) :
    Sound (pending.erase i) (.discarded i :: history) thread := by
  refine h.carry (fun e he => List.mem_cons_of_mem _ he) (fun _ => rfl) ?_ ?_ ?_
  · intro id v hb c' v' hmem
    exact hb c' v' ((List.mem_cons.mp hmem).resolve_left nofun)
  · intro c v _ hs
    exact ((standing_cons.mp hs).resolve_left nofun).2
  · intro id entry ht
    refine ⟨List.mem_cons_of_mem _ ht.queued, ht.source, ?_, ?_⟩
    · intro e he
      rw [Map.lookup_erase_eq] at he
      split at he
      · cases he
      · exact ht.newer e he
    · intro hnone
      by_cases hid : id = i
      · exact if_pos hid.symm
      · rw [Map.lookup_erase_eq, if_neg hid] at hnone
        rw [newest, if_neg (Ne.symm hid)]
        exact ht.gone hnone

/-- An event that is no return of a save leaves the returns so far. -/
theorem saved_cons {e : Event}
    (h : ∀ later earlier c v, history = later ++ .saved c v none :: earlier →
      Standing c v earlier → Stored earlier c v) (he : ∀ c v, e ≠ .saved c v none) :
    ∀ later earlier c v, e :: history = later ++ .saved c v none :: earlier →
      Standing c v earlier → Stored earlier c v := by
  intro later earlier c v hsplit
  cases later with
  | nil => exact absurd (List.cons.inj hsplit).1 (he c v)
  | cons e' later => exact h later earlier c v (List.cons.inj hsplit).2

theorem Inv.queue (h : Inv s) (c : SourceCatalog) : Inv (s.queue c) := by
  refine ⟨h.ledger.queue c _, h.lock, fun t => (h.sound t).queue h.ledger c _, ?_,
    saved_cons h.saved nofun⟩
  intro id e he
  simp only [State.queue, Map.lookup_insert_eq] at he
  split at he
  · cases he
    left
    intro c' v' hmem _
    have hwritten := (List.mem_cons.mp hmem).resolve_left nofun
    exact Nat.lt_succ_of_le (h.ledger.bounded c' v' (h.ledger.owned c' v' hwritten))
  · refine (h.behind id e he).imp_left fun hb c' v' hmem => ?_
    exact hb c' v' ((List.mem_cons.mp hmem).resolve_left nofun)

theorem Inv.discard (h : Inv s) (i : String) : Inv (s.discard i) := by
  refine ⟨h.ledger.discard i, h.lock, fun t => (h.sound t).discard i, ?_,
    saved_cons h.saved nofun⟩
  intro id e he
  simp only [State.discard, Map.lookup_erase_eq] at he
  split at he
  · cases he
  · refine (h.behind id e he).imp_left fun hb c' v' hmem => ?_
    exact hb c' v' ((List.mem_cons.mp hmem).resolve_left nofun)

/-! ### The parts of a call -/

theorem sound_finish {error : Option String} (hknows : Knows history id caller)
    (hstored : error = none → ∀ c v, caller = .save c v → Standing c v history →
      Stored history c v) :
    Sound pending history (State.finish caller error) := by
  cases caller with
  | flush ids => trivial
  | save c v =>
    cases error with
    | some text => trivial
    | none => exact ⟨hknows.1, hstored rfl c v rfl⟩

theorem Inv.lockStep {s' : State} (h : Inv s) (hs : s.lock t = some s') : Inv s' := by
  unfold State.lock at hs
  have hready : ∀ next, s.writer = none → Sound s.pending s.history next →
      (s.threads t).holds = false → Inv ({ s with writer := some t }.setThread t next) := by
    intro next hwriter hsound hfree
    refine ⟨h.ledger, ?_, forall_update hsound fun u _ => h.sound u, ?_, h.saved⟩
    · refine lock_update h.lock (fun _ => rfl) ?_
      intro u _ hholds
      have := h.lock u hholds
      rw [hwriter] at this
      cases this
    · intro id e he
      refine (h.behind id e he).imp_right fun hm => hm.update ?_
      intro caller entry heq
      rw [heq] at hfree
      cases hfree
  have hsound := h.sound t
  split at hs
  · rename_i c v ht hwriter
    cases hs
    rw [ht] at hsound
    obtain ⟨id, hmem, -⟩ := hsound
    exact hready _ hwriter ⟨hmem, rfl⟩ (by rw [ht]; rfl)
  · rename_i ids ht hwriter
    cases hs
    exact hready _ hwriter trivial (by rw [ht]; rfl)
  · cases hs

theorem Inv.listStep {s' : State} {ids : List String} (h : Inv s) (hs : s.list t ids = some s') :
    Inv s' := by
  unfold State.list at hs
  split at hs
  · rename_i ht
    split at hs
    · cases hs
      exact h.move (by rw [ht]; rfl) (by simp [ht]) trivial
    · cases hs
  · cases hs

theorem Inv.lookStep {s' : State} {cancelled : Bool} (h : Inv s)
    (hs : s.look t cancelled = some s') : Inv s' := by
  unfold State.look at hs
  split at hs
  · rename_i ht
    cases hs
    exact h.move (by rw [ht]; rfl) (by simp [ht]) trivial
  · rename_i id ids ht
    cases hs
    refine h.move (by rw [ht]; rfl) (by simp [ht]) ?_
    cases cancelled <;> trivial
  · cases hs

/-- While the source is being read no other call merges a write of it. -/
theorem Inv.behind_reading (h : Inv s) (ht : s.threads t = .reading caller id) {e : CatalogWrite}
    (he : s.pending.lookup id = some e) : Behind s.history id e.version := by
  refine (h.behind id e he).resolve_right ?_
  rintro ⟨u, caller', entry, hu⟩
  by_cases hut : u = t
  · rw [hut, ht] at hu
    cases hu
  · have hfree := h.free (by rw [ht]; rfl) u hut
    rw [hu] at hfree
    cases hfree

theorem Inv.readStep {s' : State} (h : Inv s) (hs : s.read t = some s') : Inv s' := by
  unfold State.read at hs
  split at hs
  · rename_i caller id ht
    have hknows : Knows s.history id caller := by
      have hsound := h.sound t
      rw [ht] at hsound
      exact hsound
    have hholds : (s.threads t).holds = true := by
      rw [ht]
      rfl
    cases hlookup : s.pending.lookup id with
    | none =>
      simp only [hlookup] at hs
      cases hs
      refine h.move hholds (by simp [ht]) (sound_finish hknows ?_)
      rintro - c v rfl hstanding
      obtain ⟨c', v', hnewest, hle⟩ := newest_of_standing h.ledger.numbered hstanding
      rw [hknows.2] at hnewest
      refine ⟨c', v', ?_, hle⟩
      rcases h.ledger.drained id hlookup with hnone | hlast
      · rw [hnewest] at hnone
        cases hnone
      · rw [hknows.2, hlast, hnewest]
    | some entry =>
      simp only [hlookup] at hs
      cases hs
      obtain ⟨hqueued, hsource⟩ := h.ledger.queued_of_entry hlookup
      refine h.move hholds (by simp [ht]) ⟨⟨hqueued, hsource, ?_, ?_⟩, ?_, hknows, ?_⟩
      · intro e he
        rw [hlookup] at he
        cases he
        exact le_rfl
      · intro hnone
        rw [hlookup] at hnone
        cases hnone
      · exact h.behind_reading ht hlookup
      · cases caller with
        | flush ids => trivial
        | save c v =>
          intro hstanding
          obtain ⟨c', v', hnewest, hle⟩ := newest_of_standing h.ledger.numbered hstanding
          rw [hknows.2, h.ledger.entries id entry hlookup] at hnewest
          cases hnewest
          exact hle
  · cases hs

theorem Inv.writeStep {s' : State} {error : Option String} (h : Inv s)
    (hs : s.write t error = some s') : Inv s' := by
  unfold State.write at hs
  split at hs
  · rename_i caller id entry ht
    have hholds : (s.threads t).holds = true := by
      rw [ht]
      rfl
    have hsound := h.sound t
    rw [ht] at hsound
    obtain ⟨htaken, hbehind, hknows, hcovers⟩ := hsound
    cases error with
    | some text =>
      cases hs
      exact h.move hholds (by simp [ht]) ⟨htaken, nofun, fun _ => hbehind, hknows, hcovers⟩
    | none =>
      cases hs
      have hsub : ∀ e ∈ s.history, e ∈ Event.written entry.catalog entry.version :: s.history :=
        fun e he => List.mem_cons_of_mem _ he
      have hnewTaken :
          Taken s.pending (.written entry.catalog entry.version :: s.history) id entry :=
        ⟨hsub _ htaken.queued, htaken.source, htaken.newer, htaken.gone⟩
      refine ⟨h.ledger.write htaken hbehind, ?_, ?_, ?_, saved_cons h.saved nofun⟩
      · refine lock_update h.lock (fun _ => h.lock t hholds) ?_
        intro u hu hother
        rw [h.free hholds u hu] at hother
        cases hother
      · refine forall_update ?_ fun u hu => (h.sound u).free (h.free hholds u hu) hsub
        refine ⟨hnewTaken, fun _ => if_pos htaken.source, fun hne => absurd rfl hne,
          hknows.mono hsub, ?_⟩
        cases caller with
        | flush ids => trivial
        | save c v => exact fun hst => hcovers ((standing_cons.mp hst).resolve_left nofun).2
      · intro i e he
        by_cases hi : i = id
        · refine .inr ⟨t, caller, entry, ?_⟩
          rw [hi]
          exact Function.update_self ..
        · refine (h.behind i e he).imp ?_ ?_
          · intro hb c v hmem hid
            rcases List.mem_cons.mp hmem with heq | hmem
            · cases heq
              exact absurd (hid.symm.trans htaken.source) hi
            · exact hb c v hmem hid
          · exact fun hm => hm.update fun caller' entry' heq => by simp [ht] at heq
  · cases hs

theorem Inv.mergeStep {s' : State} (h : Inv s) (hs : s.mergeStep t = some s') : Inv s' := by
  unfold State.mergeStep at hs
  split at hs
  · rename_i caller id entry error ht
    cases hs
    have hholds : (s.threads t).holds = true := by
      rw [ht]
      rfl
    have hsound := h.sound t
    rw [ht] at hsound
    obtain ⟨htaken, hlast, hbehind, hknows, hcovers⟩ := hsound
    refine ⟨h.ledger.merge htaken hlast, ?_, ?_, ?_, h.saved⟩
    · refine lock_update h.lock (fun _ => h.lock t hholds) ?_
      intro u hu hother
      rw [h.free hholds u hu] at hother
      cases hother
    · refine forall_update ?_ fun u hu =>
        (h.sound u).free (h.free hholds u hu) fun _ he => he
      refine sound_finish hknows ?_
      rintro herror c v rfl hstanding
      refine ⟨entry.catalog, entry.version, ?_, hcovers hstanding⟩
      rw [hknows.2]
      exact hlast herror
    · intro i e he
      have hmerged : (State.merge s.pending id entry error).lookup i = some e := he
      rcases lookup_merge s.pending id entry error i with
        hsame | ⟨current, rfl, hcurrent, hversion, ⟨-, hnone⟩ | ⟨text, herror, hsome⟩⟩
      · have hlookup : s.pending.lookup i = some e := hsame ▸ hmerged
        by_cases hi : i = id
        · subst hi
          cases error with
          | some text => exact .inl fun c v hmem hid =>
              (hbehind nofun c v hmem hid).trans_le (htaken.newer e hlookup)
          | none =>
            -- A snapshot that the merge leaves is a newer one than what has been written.
            have hne : e.version ≠ entry.version := by
              intro heq
              rw [State.merge, hlookup] at hmerged
              simp only [heq, if_true, Map.lookup_erase_eq] at hmerged
              cases hmerged
            left
            intro c v hmem hid
            have hle := h.ledger.increasing.le_last (hlast rfl) hmem hid
            exact hle.trans_lt (Nat.lt_of_le_of_ne (htaken.newer e hlookup) hne.symm)
        · refine (h.behind i e hlookup).imp_right fun hm => hm.update ?_
          intro caller' entry' heq
          rw [ht] at heq
          cases heq
          exact hi rfl
      · rw [hnone] at hmerged
        cases hmerged
      · rw [hsome] at hmerged
        cases hmerged
        left
        intro c v hmem hid
        have hlt := hbehind (by rw [herror]; exact nofun) c v hmem hid
        rwa [← hversion] at hlt
  · cases hs

theorem Inv.unlockStep {s' : State} (h : Inv s) (hs : s.unlock t = some s') : Inv s' := by
  have hleave : ∀ caller error, s.threads t = .leaving caller error →
      Inv ({ s with writer := none }.setThread t .idle) := by
    intro caller error ht
    have hholds : (s.threads t).holds = true := by
      rw [ht]
      rfl
    refine ⟨h.ledger, ?_, forall_update trivial fun u _ => h.sound u, ?_, h.saved⟩
    · refine lock_update h.lock nofun ?_
      intro u hu hother
      rw [h.free hholds u hu] at hother
      cases hother
    · intro id e he
      refine (h.behind id e he).imp_right fun hm => hm.update ?_
      intro caller' entry' heq
      rw [ht] at heq
      cases heq
  unfold State.unlock at hs
  split at hs
  · rename_i c v error ht
    cases hs
    obtain ⟨hledger, hlock, hsound, hbehind, hsaved⟩ := hleave _ _ ht
    have hsub : ∀ e ∈ s.history, e ∈ Event.saved c v error :: s.history :=
      fun e he => List.mem_cons_of_mem _ he
    refine ⟨hledger.saved c v error, hlock, ?_, ?_, ?_⟩
    · intro u
      refine (hsound u).free ?_ hsub
      by_contra hholds
      have := hlock u (by simpa using hholds)
      cases this
    · intro id e he
      refine (hbehind id e he).imp_left fun hb c' v' hmem => ?_
      exact hb c' v' ((List.mem_cons.mp hmem).resolve_left nofun)
    · intro later earlier c' v' hsplit hstanding
      cases later with
      | nil =>
        cases hsplit
        have hanswer := h.sound t
        rw [ht] at hanswer
        exact hanswer.2 hstanding
      | cons e later => exact h.saved later earlier c' v' (List.cons.inj hsplit).2 hstanding
  · rename_i ids error ht
    cases hs
    exact hleave _ _ ht
  · cases hs

theorem inv_step {s' : State} {a : Action} (h : Inv s) (hs : s.step a = some s') : Inv s' := by
  cases a with
  | queue catalog =>
    cases hs
    exact h.queue catalog
  | discard id =>
    cases hs
    exact h.discard id
  | save t catalog =>
    simp only [State.step, State.start] at hs
    split at hs
    · rename_i ht
      cases hs
      refine (h.queue catalog).enter (by rw [ht]; rfl) rfl ?_
      exact ⟨catalog.sourceID, List.mem_cons_self, rfl⟩
    · cases hs
  | flush t =>
    simp only [State.step, State.start] at hs
    split at hs
    · rename_i ht
      cases hs
      exact h.enter (by rw [ht]; rfl) rfl ⟨"", trivial⟩
    · cases hs
  | lock t => exact h.lockStep hs
  | list t ids => exact h.listStep hs
  | look t cancelled => exact h.lookStep hs
  | read t => exact h.readStep hs
  | write t error => exact h.writeStep hs
  | merge t => exact h.mergeStep hs
  | unlock t => exact h.unlockStep hs

theorem inv_new (catalogs : List SourceCatalog) : Inv (.new catalogs) := by
  have hempty : Inv ⟨0, ∅, none, fun _ => .idle, []⟩ := by
    refine ⟨⟨.nil, nofun, nofun, .nil, ?_, fun _ _ => .inl rfl⟩, nofun, fun _ => trivial, ?_, ?_⟩
    · intro id e he
      cases he
    · intro id e he
      cases he
    · intro later earlier c v hsplit
      simp at hsplit
  unfold State.new
  generalize (⟨0, ∅, none, fun _ => .idle, []⟩ : State) = s at hempty
  induction catalogs generalizing s with
  | nil => exact hempty
  | cons c catalogs ih => exact ih _ (hempty.queue c)

end Calls

/-! ## Runs -/

/-- What holds after every run. -/
structure Forward (s : State) : Prop where
  numbered : Numbered s.history
  entries : ∀ id e, s.pending.lookup id = some e →
    .queued e.catalog e.version ∈ s.history ∧ e.catalog.sourceID = id
  written : ∀ c v, .written c v ∈ s.history → .queued c v ∈ s.history
  increasing : Increasing s.history
  kept : ∀ c v, Standing c v s.history →
    (∃ e, s.pending.lookup c.sourceID = some e ∧ v ≤ e.version) ∨
      ∃ c' v', .written c' v' ∈ s.history ∧ c'.sourceID = c.sourceID ∧ v ≤ v'
  drained : ∀ id snapshot, s.contains id = false → newest id s.history = some snapshot →
    lastWritten id s.history = some snapshot
  saved : ∀ later earlier c v, s.history = later ++ .saved c v none :: earlier →
    Standing c v earlier → Stored earlier c v

section Runs

variable {s : State}

theorem inv_exec {catalogs : List SourceCatalog} {as : List Action}
    (h : exec State.step (.new catalogs) as = some s) : Inv s :=
  exec_invariant Inv (fun _ _ _ hinv hs => inv_step hinv hs) (inv_new catalogs) h

theorem Inv.written_of_drained (h : Inv s) {id : String} {c : SourceCatalog} {v : Nat}
    (hnone : s.pending.lookup id = none) (hnewest : newest id s.history = some (c, v)) :
    lastWritten id s.history = some (c, v) := by
  rcases h.ledger.drained id hnone with hnothing | hlast
  · rw [hnewest] at hnothing
    cases hnothing
  · rw [hlast, hnewest]

theorem persistence_forward {catalogs : List SourceCatalog} {as : List Action}
    (h : exec State.step (.new catalogs) as = some s) : Forward s := by
  have hinv := inv_exec h
  refine ⟨hinv.ledger.numbered, fun id e he => hinv.ledger.queued_of_entry he, hinv.ledger.owned,
    hinv.ledger.increasing, ?_, ?_, hinv.saved⟩
  · intro c v hstanding
    obtain ⟨c', v', hnewest, hle⟩ := newest_of_standing hinv.ledger.numbered hstanding
    cases hlookup : s.pending.lookup c.sourceID with
    | some e =>
      rw [hinv.ledger.entries _ e hlookup] at hnewest
      cases hnewest
      exact .inl ⟨e, rfl, hle⟩
    | none =>
      have hlast := hinv.written_of_drained hlookup hnewest
      exact .inr ⟨c', v', mem_of_lastWritten hlast, (mem_of_newest hnewest).2, hle⟩
  · rintro id ⟨c, v⟩ hpending hnewest
    have hnone : s.pending.lookup id = none := by simpa [State.contains] using hpending
    exact hinv.written_of_drained hnone hnewest

end Runs

namespace Sample

def catalog (state : CatalogState) : SourceCatalog := ⟨"line 1", "hall", state, [], none⟩

/-- A newer snapshot is queued while a save writes; a flush writes it. -/
def actions : List Action :=
  [.save 0 (catalog .discovering), .lock 0, .read 0, .queue (catalog .ready), .write 0 none,
    .merge 0, .unlock 0, .flush 1, .lock 1, .list 1 ["line 1"], .look 1 false, .read 1,
    .write 1 none, .merge 1, .look 1 false, .unlock 1]

end Sample

theorem persistence_forward_sample : ∃ s, exec State.step (.new []) Sample.actions = some s ∧
    lastWritten "line 1" s.history = some (Sample.catalog .ready, 2) ∧ Forward s := by
  have hrun : ((exec State.step (.new []) Sample.actions).map fun s =>
      lastWritten "line 1" s.history) = some (some (Sample.catalog .ready, 2)) := by decide +kernel
  obtain ⟨s, hs, hlast⟩ := Option.map_eq_some_iff.mp hrun
  exact ⟨s, hs, hlast, persistence_forward hs⟩

/-! ## The status -/

theorem latestError_eq (x : Nat × String) (e : CatalogWrite) :
    State.latestError x e = x ∧ (e.errorText ≠ "" → e.version < x.1) ∨
      State.latestError x e = (e.version, e.errorText) ∧ e.errorText ≠ "" ∧ x.1 ≤ e.version := by
  unfold State.latestError
  split
  · rename_i hnewer
    exact .inr ⟨rfl, hnewer⟩
  · rename_i holder
    exact .inl ⟨rfl, fun hne => not_le.mp fun hle => holder ⟨hne, hle⟩⟩

theorem latestError_foldl (entries : List CatalogWrite) (x : Nat × String) :
    entries.foldl State.latestError x = x ∧
        (∀ e ∈ entries, e.errorText ≠ "" → e.version < x.1) ∨
      ∃ e ∈ entries, entries.foldl State.latestError x = (e.version, e.errorText) ∧
        e.errorText ≠ "" ∧ x.1 ≤ e.version ∧
        ∀ e' ∈ entries, e'.errorText ≠ "" → e'.version ≤ e.version := by
  induction entries generalizing x with
  | nil => exact .inl ⟨rfl, nofun⟩
  | cons e entries ih =>
    rw [List.foldl_cons]
    rcases ih (State.latestError x e) with ⟨heq, hall⟩ | ⟨e₁, he₁, heq, hne, hle, hall⟩
    · rcases latestError_eq x e with ⟨hkept, hself⟩ | ⟨htaken, hne, hle⟩
      · left
        rw [hkept] at hall heq ⊢
        exact ⟨heq, List.forall_mem_cons.mpr ⟨hself, hall⟩⟩
      · right
        rw [htaken] at hall
        refine ⟨e, List.mem_cons_self, heq.trans htaken, hne, hle, ?_⟩
        exact List.forall_mem_cons.mpr ⟨fun _ => le_rfl, fun e' he' hne' => (hall e' he' hne').le⟩
    · right
      refine ⟨e₁, List.mem_cons_of_mem _ he₁, heq, hne, ?_⟩
      rcases latestError_eq x e with ⟨hkept, hself⟩ | ⟨htaken, -, hfirst⟩
      · rw [hkept] at hle
        exact ⟨hle, List.forall_mem_cons.mpr ⟨fun hne' => (hself hne').le.trans hle, hall⟩⟩
      · rw [htaken] at hle
        exact ⟨hfirst.trans hle, List.forall_mem_cons.mpr ⟨fun _ => hle, hall⟩⟩

/-- The message is the error of the newest snapshot that has one, in whatever order the map is
read. -/
theorem status_newest (s : State) : (s.status.2 = "" ∧
      ∀ id e, s.pending.lookup id = some e → e.errorText = "") ∨
    ∃ id e, s.pending.lookup id = some e ∧ e.errorText ≠ "" ∧ s.status.2 = e.errorText ∧
      ∀ id' e', s.pending.lookup id' = some e' → e'.errorText ≠ "" → e'.version ≤ e.version := by
  have hmem : ∀ {id e}, s.pending.lookup id = some e → e ∈ s.pending.entries.map (·.2) :=
    fun he => List.mem_map.mpr ⟨_, Map.mem_entries.mpr he, rfl⟩
  rcases latestError_foldl (s.pending.entries.map (·.2)) (0, "") with
    ⟨heq, hall⟩ | ⟨e, he, heq, hne, -, hall⟩
  · refine .inl ⟨congrArg Prod.snd heq, ?_⟩
    intro id e he
    by_contra hne
    exact absurd (hall e (hmem he) hne) (Nat.not_lt_zero _)
  · obtain ⟨⟨id, e⟩, hentry, rfl⟩ := List.mem_map.mp he
    refine .inr ⟨id, e, Map.mem_entries.mp hentry, hne, congrArg Prod.snd heq, ?_⟩
    intro id' e' he' hne'
    exact hall e' (hmem he') hne'

end RcdServer.Catalog.Persistence
