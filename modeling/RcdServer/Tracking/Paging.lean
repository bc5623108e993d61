import RcdServer.Tracking.Admission

/-!
# Cursor paging of committed evidence

Buffered snapshots are saved in key order, not in revision order. A cursor is
`Sealed` once no snapshot that can still be committed carries a revision up to it:
every buffered and every collected snapshot has a higher one, and so does every
number the counter will hand out. The ceiling of an answer is sealed when it is
read, and seals last for the rest of the run.
-/
namespace RcdServer.Tracking

/-! ## One page -/

/-- The rows of `manager` in the half-open window `(after, upto]`. -/
def Journal.Between (j : Journal) (manager : String) (after upto : Nat) (e : EventRow) : Prop :=
  e ∈ j.events ∧ e.manager = manager ∧ after < e.revision ∧ e.revision ≤ upto

theorem Journal.events_inj (j : Journal) {a b : EventRow} (ha : a ∈ j.events) (hb : b ∈ j.events)
    (h : a.revision = b.revision) : a = b :=
  List.inj_on_of_nodup_map j.eventsKey ha hb h

/-- The selected rows before `LIMIT`, in strictly increasing revision. -/
theorem window_increasing (j : Journal) (manager : String) (after ceiling : Nat) :
    ((j.events.filter (inWindow manager after ceiling)).insertionSort EventRow.Before).Pairwise
      fun a b => a.revision < b.revision := by
  have hnodup : (j.events.filter (inWindow manager after ceiling)).Nodup :=
    (List.Nodup.of_map _ j.eventsKey).filter _
  have hsorted := (List.pairwise_insertionSort EventRow.Before
    (j.events.filter (inWindow manager after ceiling))).and
      ((List.perm_insertionSort EventRow.Before _).nodup_iff.mpr hnodup)
  refine hsorted.imp_of_mem fun {a b} ha hb h => lt_of_le_of_ne h.1 fun heq => h.2 ?_
  have hin : ∀ x ∈ (j.events.filter (inWindow manager after ceiling)).insertionSort EventRow.Before,
      x ∈ j.events := fun x hx => (List.mem_filter.mp ((List.mem_insertionSort _).mp hx)).1
  exact j.events_inj (hin a ha) (hin b hb) heq

/-- What one answer holds. -/
structure ExactPage (j : Journal) (manager : String) (after ceiling : Nat) (p : Page)
    (rows : List EventRow) : Prop where
  items : p.items = rows.map EventRow.data
  increasing : rows.Pairwise fun a b => a.revision < b.revision
  complete : ∀ e, e ∈ rows ↔ j.Between manager after p.nextCursor e
  cursor : p.nextCursor = after ∨ (after < p.nextCursor ∧ p.nextCursor ≤ ceiling)
  progress : rows = [] → ∀ e, ¬ j.Between manager after ceiling e

theorem cursorAfter_eq (j : Journal) (after : Nat) (rows : List EventRow)
    (hrows : ∀ e ∈ rows, e ∈ j.events) :
    (rows = [] ∧ cursorAfter after (rows.map EventRow.data) = after) ∨
      ∃ front last, rows = front ++ [last] ∧
        cursorAfter after (rows.map EventRow.data) = last.revision := by
  rcases List.eq_nil_or_concat rows with rfl | ⟨front, last, rfl⟩
  · exact .inl ⟨rfl, rfl⟩
  · refine .inr ⟨front, last, by simp, ?_⟩
    have hlast := (j.eventsData last (hrows last (by simp))).1
    simp [cursorAfter, hlast]

/-- Every answer holds exactly the rows up to its cursor, whatever the two limits cut off. -/
theorem Journal.page_exact (rawLen : Snapshot → Nat) (j : Journal) (gap : Bool) (ceiling : Nat)
    (manager : String) (after limit : Nat) (hlimit : 0 < limit) :
    ∃ rows, ExactPage j manager after ceiling (j.page rawLen gap ceiling manager after limit) rows := by
  obtain ⟨rows, hprefix, hitems, hfirst⟩ :=
    pageItems_eq rawLen 0 [] (pageRows j.events manager after ceiling limit)
  rw [List.nil_append] at hitems
  have hinc := window_increasing j manager after ceiling
  -- both limits cut a tail off the sorted window
  obtain ⟨rest, hrest⟩ := hprefix.trans (List.take_prefix limit _)
  have hwin : ∀ e, e ∈ rows ++ rest ↔ j.Between manager after ceiling e := by
    intro e
    rw [hrest, List.mem_insertionSort, List.mem_filter, Journal.Between]
    simp [inWindow, and_assoc]
  rw [← hrest, List.pairwise_append] at hinc
  have hrows : ∀ e ∈ rows, j.Between manager after ceiling e :=
    fun e he => (hwin e).mp (List.mem_append_left _ he)
  have hcursor : (j.page rawLen gap ceiling manager after limit).nextCursor =
      cursorAfter after (rows.map EventRow.data) := congrArg (cursorAfter after) hitems
  have hprogress : rows = [] → ∀ e, ¬ j.Between manager after ceiling e := by
    intro hnil e he
    have hpage : pageRows j.events manager after ceiling limit = [] := by
      by_contra hne
      exact hfirst rfl hne hnil
    have hsel : (j.events.filter (inWindow manager after ceiling)).insertionSort EventRow.Before = [] :=
      (List.take_eq_nil_iff.mp hpage).resolve_left (Nat.ne_of_gt hlimit)
    rw [hnil, List.nil_append] at hwin hrest
    have := (hwin e).mpr he
    rw [hrest, hsel] at this
    cases this
  refine ⟨rows, hitems, hinc.1, ?_, ?_, hprogress⟩
  · intro e
    rw [hcursor]
    rcases cursorAfter_eq j after rows fun e he => (hrows e he).1 with ⟨rfl, heq⟩ | ⟨front, last, rfl, heq⟩
    · rw [heq]
      constructor
      · intro h
        cases h
      · rintro ⟨-, -, hlo, hhi⟩
        omega
    · rw [heq]
      have hlast := hrows last (by simp)
      constructor
      · intro he
        obtain ⟨hmem, hm, hlo, -⟩ := hrows e he
        refine ⟨hmem, hm, hlo, ?_⟩
        rcases List.mem_append.mp he with hf | hl
        · exact ((List.pairwise_append.mp hinc.1).2.2 e hf last (by simp)).le
        · rw [List.mem_singleton.mp hl]
      · rintro ⟨hmem, hm, hlo, hhi⟩
        rcases List.mem_append.mp ((hwin e).mpr ⟨hmem, hm, hlo, hhi.trans hlast.2.2.2⟩) with h | h
        · exact h
        · have := hinc.2.2 last (by simp) e h
          omega
  · rw [hcursor]
    rcases cursorAfter_eq j after rows fun e he => (hrows e he).1 with ⟨-, heq⟩ | ⟨front, last, rfl, heq⟩
    · exact .inl heq
    · have hlast := hrows last (by simp)
      exact .inr (heq ▸ ⟨hlast.2.2.1, hlast.2.2.2⟩)

/-! ## Seals -/

/-- Snapshots the writer has collected and not yet committed. -/
def WriterPc.inFlight : WriterPc → List Snapshot
  | .syncing values | .saving values | .noting _ values => values
  | _ => []

/-- Places of the writer loop behind the test for an open database. -/
def WriterPc.connected : WriterPc → Bool
  | .syncing _ | .saving _ | .noting _ _ | .paging _ => true
  | _ => false

/-- Nothing that can still be committed has a revision up to `c`. Before the database is open the
counter and the buffer do not matter: the rebase lifts them past the file. -/
structure Sealed (c : Nat) (s : Sys) : Prop where
  closed : s.db = false → c ≤ s.journal.lastRevision
  counter : s.db = true → c ≤ s.state.revision
  dirty : s.db = true → ∀ k v, s.state.dirty.lookup k = some v → c < v.revision
  inFlight : ∀ v ∈ s.writer.inFlight, c < v.revision

/-- Where the writer stands fits its connection; while it recovers it numbers past the file, and a
ceiling it has read stays sealed. -/
structure Sound (s : Sys) : Prop where
  opening : s.writer = .opening → s.db = false
  recovering : ∀ g r rest, s.writer = .recovering g r rest → s.db = false ∧ s.journal.lastRevision ≤ r
  connected : s.writer.connected = true → s.db = true
  paging : ∀ c, s.writer = .paging c → Sealed c s

theorem Sealed.mono {c d : Nat} {s : Sys} (h : Sealed d s) (hcd : c ≤ d) : Sealed c s where
  closed hdb := hcd.trans (h.closed hdb)
  counter hdb := hcd.trans (h.counter hdb)
  dirty hdb k v hv := hcd.trans_lt (h.dirty hdb k v hv)
  inFlight v hv := hcd.trans_lt (h.inFlight v hv)

/-- A step that advances the memory, collects only what was buffered and takes no number away
from a file that is not open yet keeps every seal. -/
theorem Sealed.frame {c : Nat} {s s' : Sys} (h : Sealed c s) (hdb : s'.db = s.db)
    (hadv : s.state.Advances s'.state)
    (hlast : s.db = false → s.journal.lastRevision ≤ s'.journal.lastRevision)
    (hfly : ∀ v ∈ s'.writer.inFlight, v ∈ s.writer.inFlight ∨
      (s.db = true ∧ ∃ k, s.state.dirty.lookup k = some v)) : Sealed c s' where
  closed hc := (h.closed (hdb ▸ hc)).trans (hlast (hdb ▸ hc))
  counter ho := (h.counter (hdb ▸ ho)).trans hadv.revision
  dirty ho k v hv := by
    rcases hadv.dirty k v hv with ⟨w, hw, heq⟩ | hlt
    · exact heq ▸ h.dirty (hdb ▸ ho) k w hw
    · exact (h.counter (hdb ▸ ho)).trans_lt hlt
  inFlight v hv := by
    rcases hfly v hv with hv | ⟨ho, k, hk⟩
    · exact h.inFlight v hv
    · exact h.dirty ho k v hk

theorem Sealed.empty {c : Nat} {s s' : Sys} (h : Sealed c s) (hdb : s'.db = s.db)
    (hadv : s.state.Advances s'.state)
    (hlast : s.db = false → s.journal.lastRevision ≤ s'.journal.lastRevision)
    (hfly : s'.writer.inFlight = []) : Sealed c s' :=
  h.frame hdb hadv hlast fun v hv => by
    rw [hfly] at hv
    cases hv

/-- Calls and updates work on memory alone. -/
structure MemoryStep (s s' : Sys) : Prop where
  journal : s'.journal = s.journal
  writer : s'.writer = s.writer
  db : s'.db = s.db
  answers : s'.answers = s.answers
  request : s'.request = s.request
  advances : s.state.Advances s'.state

theorem CallStep.memory {env : Env} {s s' : Sys} (h : CallStep env s s') : MemoryStep s s' := by
  cases h with
  | arrive => exact ⟨rfl, rfl, rfl, rfl, rfl, .refl _⟩
  | move i c pc state hget hlive hpc hseen hadv => exact ⟨rfl, rfl, rfl, rfl, rfl, hadv⟩
  | reserve i c v state hget hlive hfresh hseen hadv => exact ⟨rfl, rfl, rfl, rfl, rfl, hadv⟩

theorem step_memory_or_writer {env : Env} {s s' : Sys} {a : Action} (h : step env s a = some s') :
    MemoryStep s s' ∨ WriterStep env s s' := by
  rcases step_cases h with hcall | hwriter | ⟨port, ack, change, now, rfl⟩
  · exact .inl hcall.memory
  · exact .inr hwriter
  · exact .inl ⟨rfl, rfl, rfl, rfl, rfl, State.advances_update _ _ _ _ _⟩

theorem Sealed.memoryStep {c : Nat} {s s' : Sys} (h : Sealed c s) (hstep : MemoryStep s s') :
    Sealed c s' :=
  h.frame hstep.db hstep.advances (fun _ => by rw [hstep.journal])
    fun v hv => .inl (hstep.writer ▸ hv)

theorem inFlight_ite_started {b : Bool} :
    (if b then WriterPc.collecting else WriterPc.booting).inFlight = [] := by
  cases b <;> rfl

/-- A step of the writer keeps every seal, and commits nothing under one. -/
theorem Sealed.writerStep {env : Env} {c : Nat} {s s' : Sys} (hs : Sound s) (h : Sealed c s)
    (hstep : WriterStep env s s') :
    Sealed c s' ∧ ∀ e ∈ s'.journal.events, e ∈ s.journal.events ∨ c < e.revision := by
  cases hstep with
  | recv q hw hlimit =>
    refine ⟨h.empty rfl (.refl _) (fun _ => Nat.le_refl _) ?_, fun e he => .inl he⟩
    cases hdb : s.db <;> rfl
  | notOpened error gateway hw =>
    exact ⟨h.empty rfl (s.state.advances_degrade _) (fun _ => Nat.le_refl _) inFlight_ite_started,
      fun e he => .inl he⟩
  | openStart gateway identity hw =>
    exact ⟨h.empty rfl (.refl _) (fun _ => Nat.le_refl _) rfl, fun e he => .inl he⟩
  | recover gateway now revision v rest hw =>
    obtain ⟨hdb, hlast⟩ := hs.recovering _ _ _ hw
    refine ⟨h.empty rfl (.refl _) (fun _ => s.journal.last_le_save _) rfl, fun e he => ?_⟩
    rcases mem_insertEvent he with he | rfl
    · exact .inl he
    · exact .inr (Nat.lt_succ_of_le ((h.closed hdb).trans hlast))
  | opened gateway revision hw =>
    obtain ⟨hdb, hlast⟩ := hs.recovering _ _ _ hw
    have hc : c ≤ revision := (h.closed hdb).trans hlast
    refine ⟨⟨fun hf => ?_, fun _ => hc.trans (s.state.rebase_revision revision),
      fun _ k v hv => hc.trans_lt (s.state.rebase_dirty revision hv), fun v hv => ?_⟩,
      fun e he => .inl he⟩
    · cases hf
    · rw [inFlight_ite_started] at hv
      cases hv
  | history ids known hw =>
    exact ⟨h.empty rfl (.refl _) (fun _ => Nat.le_refl _) rfl, fun e he => .inl he⟩
  | collect hw =>
    refine ⟨h.frame rfl (.refl _) (fun _ => Nat.le_refl _) fun v hv => ?_, fun e he => .inl he⟩
    cases hdb : s.db with
    | false => simp [hdb, WriterPc.inFlight] at hv
    | true =>
      simp only [hdb, if_true, WriterPc.inFlight] at hv
      exact .inr ⟨rfl, State.mem_batch hv⟩
  | syncGap values gap historyGap hw =>
    refine ⟨h.frame rfl ⟨Nat.le_refl _, (State.Advances.refl s.state).dirty⟩ (fun _ => Nat.le_refl _)
      fun v hv => .inl ?_, fun e he => .inl he⟩
    rw [hw]
    exact hv
  | save v rest hw =>
    refine ⟨h.frame rfl (.refl _) (fun _ => s.journal.last_le_save _) fun w hv => .inl ?_, fun e he => ?_⟩
    · rw [hw]
      exact List.mem_cons_of_mem _ hv
    · rcases mem_insertEvent he with he | rfl
      · exact .inl he
      · exact .inr (h.inFlight v (by rw [hw]; exact List.mem_cons_self))
  | note v rest hw =>
    refine ⟨h.frame rfl (s.state.advances_saved v) (fun _ => Nat.le_refl _) fun w hv => .inl ?_,
      fun e he => .inl he⟩
    rw [hw]
    exact hv
  | saveFailed error v rest hw =>
    exact ⟨h.empty rfl (s.state.advances_saveFailed error) (fun _ => Nat.le_refl _) rfl,
      fun e he => .inl he⟩
  | notDue hw => exact ⟨h.empty rfl (.refl _) (fun _ => Nat.le_refl _) rfl, fun e he => .inl he⟩
  | prune cutoff hw =>
    have hdb : s.db = true := hs.connected (by rw [hw]; rfl)
    refine ⟨h.empty rfl (.refl _) (fun hf => ?_) rfl, fun e he => .inl (List.mem_filter.mp he).1⟩
    rw [hdb] at hf
    cases hf
  | pruneFailed error hw =>
    exact ⟨h.empty rfl (s.state.advances_degrade _) (fun _ => Nat.le_refl _) rfl, fun e he => .inl he⟩
  | ceiling hw hdb => exact ⟨h.empty rfl (.refl _) (fun _ => Nat.le_refl _) rfl, fun e he => .inl he⟩
  | answer ceil q hw hq =>
    exact ⟨h.empty rfl (.refl _) (fun _ => Nat.le_refl _) rfl, fun e he => .inl he⟩
  | noAnswer hw => exact ⟨h.empty rfl (.refl _) (fun _ => Nat.le_refl _) rfl, fun e he => .inl he⟩

/-- A step keeps every seal, and commits nothing under one. -/
theorem Sealed.step {env : Env} {c : Nat} {s s' : Sys} {a : Action} (hs : Sound s) (h : Sealed c s)
    (hstep : Tracking.step env s a = some s') :
    Sealed c s' ∧ ∀ e ∈ s'.journal.events, e ∈ s.journal.events ∨ c < e.revision := by
  rcases step_memory_or_writer hstep with hmem | hwriter
  · exact ⟨h.memoryStep hmem, fun e he => .inl (hmem.journal ▸ he)⟩
  · exact h.writerStep hs hwriter

/-- The ceiling the writer reads is sealed: it is below the buffer, and nothing is in flight. -/
theorem sealed_ceiling {s : Sys} (hdb : s.db = true) (hfly : s.writer.inFlight = []) :
    Sealed s.state.ceiling s where
  closed hf := by rw [hdb] at hf; cases hf
  counter _ := s.state.ceiling_spec.1
  dirty _ := s.state.ceiling_spec.2
  inFlight v hv := by rw [hfly] at hv; cases hv

theorem Sealed.le_ceiling {c : Nat} {s : Sys} (h : Sealed c s) (hdb : s.db = true) :
    c ≤ s.state.ceiling :=
  State.le_ceiling (h.counter hdb) (h.dirty hdb)

/-- A writer that stands at a place without obligations is sound. -/
theorem Sound.of_place {s : Sys} (h : s.writer = .idle ∨ s.writer = .booting ∨ s.writer = .collecting ∨
    s.writer = .replying) : Sound s := by
  rcases h with h | h | h | h <;>
    exact ⟨by simp [h], by simp [h], by simp [h, WriterPc.connected], by simp [h]⟩

/-- A writer that holds a batch is sound once it is connected. -/
theorem Sound.of_batch {s : Sys} (hdb : s.db = true) (h : (∃ vs, s.writer = .syncing vs) ∨
    (∃ vs, s.writer = .saving vs) ∨ ∃ v vs, s.writer = .noting v vs) : Sound s := by
  rcases h with ⟨vs, h⟩ | ⟨vs, h⟩ | ⟨v, vs, h⟩ <;>
    exact ⟨by simp [h], by simp [h], fun _ => hdb, by simp [h]⟩

theorem Sound.writerStep {env : Env} {s s' : Sys} (hs : Sound s) (hstep : WriterStep env s s') :
    Sound s' := by
  cases hstep with
  | recv q hw hlimit =>
    cases hdb : s.db with
    | true => exact .of_place (.inr (.inr (.inl (by simp))))
    | false => exact ⟨fun _ => rfl, by simp, by simp [WriterPc.connected], by simp⟩
  | notOpened error gateway hw =>
    cases hst : s.started with
    | true => exact .of_place (.inr (.inr (.inl (by simp))))
    | false => exact .of_place (.inr (.inl (by simp)))
  | openStart gateway identity hw =>
    refine ⟨by simp, ?_, by simp [WriterPc.connected], by simp⟩
    rintro g r rest ⟨-, rfl, -⟩
    exact ⟨hs.opening hw, Nat.le_refl _⟩
  | recover gateway now revision v rest hw =>
    obtain ⟨hdb, hlast⟩ := hs.recovering _ _ _ hw
    refine ⟨by simp, ?_, by simp [WriterPc.connected], by simp⟩
    rintro g r rest ⟨-, rfl, -⟩
    exact ⟨hdb, s.journal.save_last_le _ (hlast.trans (Nat.le_succ _)) (Nat.le_refl _)⟩
  | opened gateway revision hw =>
    cases hst : s.started with
    | true => exact .of_place (.inr (.inr (.inl (by simp))))
    | false => exact .of_place (.inr (.inl (by simp)))
  | history ids known hw => exact .of_place (.inl rfl)
  | collect hw =>
    cases hdb : s.db with
    | true => exact .of_batch rfl (.inl ⟨s.state.batch, by simp⟩)
    | false => exact .of_place (.inr (.inr (.inr (by simp))))
  | syncGap values gap historyGap hw =>
    exact .of_batch (hs.connected (by rw [hw]; rfl)) (.inr (.inl ⟨values, rfl⟩))
  | save v rest hw => exact .of_batch (hs.connected (by rw [hw]; rfl)) (.inr (.inr ⟨v, rest, rfl⟩))
  | note v rest hw => exact .of_batch (hs.connected (by rw [hw]; rfl)) (.inr (.inl ⟨rest, rfl⟩))
  | saveFailed error v rest hw =>
    exact .of_batch (hs.connected (by rw [hw]; rfl)) (.inr (.inl ⟨[], rfl⟩))
  | notDue hw => exact .of_place (.inr (.inr (.inr rfl)))
  | prune cutoff hw => exact .of_place (.inr (.inr (.inr rfl)))
  | pruneFailed error hw => exact .of_place (.inr (.inr (.inr rfl)))
  | ceiling hw hdb =>
    refine ⟨by simp, by simp, fun _ => hdb, ?_⟩
    rintro c ⟨rfl⟩
    have hseal := sealed_ceiling hdb (by rw [hw]; rfl)
    exact ⟨hseal.closed, hseal.counter, hseal.dirty, fun v hv => by cases hv⟩
  | answer ceil q hw hq => exact .of_place (.inl rfl)
  | noAnswer hw => exact .of_place (.inl rfl)

theorem Sound.step {env : Env} {s s' : Sys} {a : Action} (hs : Sound s)
    (hstep : Tracking.step env s a = some s') : Sound s' := by
  rcases step_memory_or_writer hstep with hmem | hwriter
  · exact ⟨fun h => hmem.db ▸ hs.opening (hmem.writer ▸ h),
      fun g r rest h => by
        rw [hmem.db, hmem.journal]
        exact hs.recovering g r rest (hmem.writer ▸ h),
      fun h => hmem.db ▸ hs.connected (hmem.writer ▸ h),
      fun c h => (hs.paging c (hmem.writer ▸ h)).memoryStep hmem⟩
  · exact hs.writerStep hwriter

/-- `Tracker::events` asks for at least one row. -/
theorem limit_step {env : Env} {s s' : Sys} {a : Action} (h : ∀ q ∈ s.request, 0 < q.limit)
    (hstep : step env s a = some s') : ∀ q ∈ s'.request, 0 < q.limit := by
  rcases step_memory_or_writer hstep with hmem | hwriter
  · rw [hmem.request]
    exact h
  · cases hwriter with
    | recv q hw hlimit => exact hlimit
    | _ => exact h

/-! ## Sessions -/

/-- A client of `manager` that starts at the cursor `start` and goes on from `next_cursor`. It has
gathered `items` and stands at `c`; other requests and lost replies are skipped. -/
inductive Session (manager : String) (start : Nat) : List Answer → List Snapshot → Nat → Prop where
  | nil : Session manager start [] [] start
  | skip {log : List Answer} {items : List Snapshot} {c : Nat} (a : Answer)
      (h : Session manager start log items c) : Session manager start (log ++ [a]) items c
  | page {log : List Answer} {items : List Snapshot} (a : Answer) (hm : a.query.manager = manager)
      (h : Session manager start log items a.query.after) :
      Session manager start (log ++ [a]) (items ++ a.page.items) a.page.nextCursor

theorem Session.snoc {manager : String} {start c : Nat} {log : List Answer} {a : Answer}
    {items : List Snapshot} (h : Session manager start (log ++ [a]) items c) :
    Session manager start log items c ∨
      (a.query.manager = manager ∧ c = a.page.nextCursor ∧
        ∃ front, items = front ++ a.page.items ∧ Session manager start log front a.query.after) := by
  generalize hl : log ++ [a] = l at h
  cases h with
  | nil => simp at hl
  | skip b h =>
    obtain ⟨rfl, -⟩ := List.append_inj' hl rfl
    exact .inl h
  | page b hm h =>
    obtain ⟨rfl, hab⟩ := List.append_inj' hl rfl
    obtain rfl : a = b := List.head_eq_of_cons_eq hab
    exact .inr ⟨hm, rfl, _, rfl, h⟩

theorem Session.of_nil {manager : String} {start c : Nat} {items : List Snapshot}
    (h : Session manager start [] items c) : items = [] ∧ c = start := by
  generalize hl : ([] : List Answer) = l at h
  cases h with
  | nil => exact ⟨rfl, rfl⟩
  | skip b h => simp at hl
  | page b hm h => simp at hl

/-- What the client of a session has in hand. -/
structure Followed (manager : String) (start : Nat) (s : Sys) (items : List Snapshot) (c : Nat) :
    Prop where
  sealed : Sealed c s
  under : ∀ ceiling, s.writer = .paging ceiling → c ≤ ceiling
  ordered : start ≤ c
  increasing : items.Pairwise fun v w => v.revision < w.revision
  within : ∀ v ∈ items, v.managerInstanceId = manager ∧ start < v.revision ∧ v.revision ≤ c
  complete : ∀ e, s.journal.Between manager start c e → e.data ∈ items

/-- A step that answers nothing leaves a session where it was. -/
theorem Followed.step {env : Env} {manager : String} {start c : Nat} {s s' : Sys} {a : Action}
    {items : List Snapshot} (hs : Sound s) (h : Followed manager start s items c)
    (hstep : Tracking.step env s a = some s') : Followed manager start s' items c := by
  obtain ⟨hseal, hold⟩ := h.sealed.step hs hstep
  refine ⟨hseal, ?_, h.ordered, h.increasing, h.within, ?_⟩
  · intro ceiling hw
    rcases step_memory_or_writer hstep with hmem | hwriter
    · exact h.under ceiling (hmem.writer ▸ hw)
    · cases hwriter with
      | ceiling _ hdb =>
        obtain rfl : s.state.ceiling = ceiling := by simpa using hw
        exact h.sealed.le_ceiling hdb
      | recv | collect => cases hdb : s.db <;> simp [hdb] at hw
      | notOpened | opened => cases hst : s.started <;> simp [hst] at hw
      | _ => simp at hw
  · rintro e ⟨hmem, hm, hlo, hhi⟩
    rcases hold e hmem with hmem | hlt
    · exact h.complete e ⟨hmem, hm, hlo, hhi⟩
    · omega

/-- The answer a client was waiting for extends its session. -/
theorem Followed.page {env : Env} {manager : String} {start : Nat} {s s' : Sys} {a : Action}
    {front : List Snapshot} {q : Query} {ceiling : Nat} {p : Page} {rows : List EventRow}
    (hs : Sound s) (hstep : Tracking.step env s a = some s') (hjournal : s'.journal = s.journal)
    (hw : s.writer = .paging ceiling) (hw' : s'.writer = .idle)
    (h : Followed manager start s front q.after)
    (hp : ExactPage s.journal manager q.after ceiling p rows) :
    Followed manager start s' (front ++ p.items) p.nextCursor := by
  have hle : p.nextCursor ≤ ceiling := by
    rcases hp.cursor with heq | ⟨-, hle⟩
    · exact heq ▸ h.under ceiling hw
    · exact hle
  have hafter : q.after ≤ p.nextCursor := by
    rcases hp.cursor with heq | ⟨hlt, -⟩
    · exact heq.ge
    · exact hlt.le
  have hdata : ∀ e ∈ rows, e.data.managerInstanceId = manager ∧ q.after < e.data.revision ∧
      e.data.revision ≤ p.nextCursor := by
    intro e he
    obtain ⟨hmem, hm, hlo, hhi⟩ := (hp.complete e).mp he
    obtain ⟨hr, hid⟩ := s.journal.eventsData e hmem
    exact ⟨hid.trans hm, hr.symm ▸ hlo, hr.symm ▸ hhi⟩
  refine ⟨(((hs.paging ceiling hw).mono hle).step hs hstep).1, by simp [hw'], h.ordered.trans hafter,
    ?_, ?_, ?_⟩
  · rw [hp.items, List.pairwise_append]
    refine ⟨h.increasing, ?_, ?_⟩
    · refine List.pairwise_map.mpr (hp.increasing.imp_of_mem fun {x y} hx hy hxy => ?_)
      rw [(s.journal.eventsData x ((hp.complete x).mp hx).1).1,
        (s.journal.eventsData y ((hp.complete y).mp hy).1).1]
      exact hxy
    · intro v hv w hwmem
      obtain ⟨e, he, rfl⟩ := List.mem_map.mp hwmem
      exact (h.within v hv).2.2.trans_lt (hdata e he).2.1
  · intro v hv
    rcases List.mem_append.mp hv with hv | hv
    · obtain ⟨hm, hlo, hhi⟩ := h.within v hv
      exact ⟨hm, hlo, hhi.trans hafter⟩
    · rw [hp.items] at hv
      obtain ⟨e, he, rfl⟩ := List.mem_map.mp hv
      obtain ⟨hm, hlo, hhi⟩ := hdata e he
      exact ⟨hm, h.ordered.trans_lt hlo, hhi⟩
  · rintro e ⟨hmem, hm, hlo, hhi⟩
    rw [hjournal] at hmem
    rw [List.mem_append]
    by_cases hold : e.revision ≤ q.after
    · exact .inl (h.complete e ⟨hmem, hm, hlo, hold⟩)
    · rw [hp.items]
      exact .inr (List.mem_map_of_mem ((hp.complete e).mpr ⟨hmem, hm, by omega, hhi⟩))

/-- A step answers no request, or logs an exact page of the file. -/
theorem answers_cases {env : Env} {s s' : Sys} {act : Action} (hlimit : ∀ q ∈ s.request, 0 < q.limit)
    (h : step env s act = some s') :
    s'.answers = s.answers ∨
      ∃ a rows, s.writer = .paging a.ceiling ∧
        s' = { s with answers := s.answers ++ [a], writer := .idle } ∧
        ExactPage s.journal a.query.manager a.query.after a.ceiling a.page rows := by
  rcases step_memory_or_writer h with hmem | hwriter
  · exact .inl hmem.answers
  · cases hwriter with
    | answer ceiling q hw hq =>
      obtain ⟨rows, hp⟩ := s.journal.page_exact env.rawLen s.state.gap ceiling q.manager q.after q.limit
        (hlimit q hq)
      exact .inr ⟨⟨q, ceiling, _⟩, rows, hw, rfl, hp⟩
    | _ => exact .inl rfl

/-- What holds in every state of a run for the clients that started at `start`. -/
structure Paged (start : Nat) (s : Sys) : Prop where
  sound : Sound s
  limit : ∀ q ∈ s.request, 0 < q.limit
  followed : ∀ manager items c, Session manager start s.answers items c →
    Followed manager start s items c

theorem paged_initial (boot : String) (file : Journal) {start : Nat} (h : start ≤ file.lastRevision) :
    Paged start (Sys.initial boot file) := by
  refine ⟨⟨fun _ => rfl, by simp [Sys.initial], by simp [Sys.initial, WriterPc.connected],
    by simp [Sys.initial]⟩, by simp [Sys.initial], ?_⟩
  intro manager items c hsession
  obtain ⟨rfl, rfl⟩ := hsession.of_nil
  refine ⟨⟨fun _ => h, by simp [Sys.initial], by simp [Sys.initial], by simp [Sys.initial, WriterPc.inFlight]⟩,
    by simp [Sys.initial], Nat.le_refl _, List.Pairwise.nil, by simp, ?_⟩
  rintro e ⟨-, -, hlo, hhi⟩
  omega

theorem paged_step {env : Env} {start : Nat} {s s' : Sys} {act : Action} (h : Paged start s)
    (hstep : step env s act = some s') : Paged start s' := by
  refine ⟨h.sound.step hstep, limit_step h.limit hstep, ?_⟩
  intro manager items c hsession
  rcases answers_cases h.limit hstep with hsame | ⟨a, rows, hw, rfl, hp⟩
  · exact (h.followed manager items c (hsame ▸ hsession)).step h.sound hstep
  · rcases hsession.snoc with hold | ⟨rfl, rfl, front, rfl, hold⟩
    · exact (h.followed manager items c hold).step h.sound hstep
    · exact (h.followed _ front a.query.after hold).page h.sound hstep rfl hw rfl hp

open Lib.Run

/-- From `s` on, no row with a revision up to `c` is committed. -/
def NoLateCommit (env : Env) (s : Sys) (c : Nat) : Prop :=
  ∀ bs t, exec (step env) s bs = some t → ∀ e ∈ t.journal.events, e.revision ≤ c → e ∈ s.journal.events

theorem Sealed.noLateCommit {env : Env} {s : Sys} {c : Nat} (hs : Sound s) (h : Sealed c s) :
    NoLateCommit env s c := by
  intro bs t hrun
  have hkeep : (Sound t ∧ Sealed c t) ∧ ∀ e ∈ t.journal.events, e.revision ≤ c → e ∈ s.journal.events := by
    refine exec_invariant (fun u => (Sound u ∧ Sealed c u) ∧
      ∀ e ∈ u.journal.events, e.revision ≤ c → e ∈ s.journal.events) ?_ ⟨⟨hs, h⟩, fun e he _ => he⟩ hrun
    rintro u act u' ⟨⟨hu, hseal⟩, hold⟩ hstep
    obtain ⟨hseal', hnew⟩ := hseal.step hu hstep
    refine ⟨⟨hu.step hstep, hseal'⟩, fun e he hle => ?_⟩
    rcases hnew e he with he | hlt
    · exact hold e he hle
    · omega
  exact hkeep.2

/-- Paging over any run of one boot. Every answer holds, in increasing revision, exactly the rows of
its manager between the cursor and `next_cursor`; if the cursor was not beyond the ceiling, no row up
to `next_cursor` is committed later. A client that starts at a revision the file had reached before
this boot and goes on from `next_cursor` never asks beyond the ceiling, gathers every event at most
once, and has gathered every event of its manager in the journal up to its cursor. -/
theorem events_paging (env : Env) (boot : String) (file : Journal) (as : List Action) (s : Sys)
    (hrun : exec (step env) (Sys.initial boot file) as = some s) :
    (∀ act s' a, step env s act = some s' → s'.answers = s.answers ++ [a] →
      s'.journal = s.journal ∧
      (∃ rows, ExactPage s.journal a.query.manager a.query.after a.ceiling a.page rows) ∧
      (a.query.after ≤ a.ceiling → NoLateCommit env s' a.page.nextCursor)) ∧
    ∀ manager start items c, start ≤ file.lastRevision → Session manager start s.answers items c →
      (∀ ceiling, s.writer = .paging ceiling → c ≤ ceiling) ∧
      items.Pairwise (fun v w => v.revision < w.revision) ∧
      (∀ e, s.journal.Between manager start c e → e.data ∈ items) ∧
      NoLateCommit env s c := by
  have hpaged : ∀ start, start ≤ file.lastRevision → Paged start s := fun start hstart =>
    exec_invariant (Paged start) (fun _ _ _ => paged_step) (paged_initial boot file hstart) hrun
  constructor
  · intro act s' a hstep hlog
    have h := hpaged 0 (Nat.zero_le _)
    rcases answers_cases h.limit hstep with hsame | ⟨b, rows, hw, rfl, hp⟩
    · rw [hsame] at hlog
      exact absurd hlog (by simp)
    · obtain rfl : b = a := List.head_eq_of_cons_eq (List.append_cancel_left hlog)
      refine ⟨rfl, ⟨rows, hp⟩, fun hafter => ?_⟩
      have hle : b.page.nextCursor ≤ b.ceiling := by
        rcases hp.cursor with heq | ⟨-, hle⟩
        · exact heq ▸ hafter
        · exact hle
      exact (((h.sound.paging _ hw).mono hle).step h.sound hstep).1.noLateCommit (h.sound.step hstep)
  · intro manager start items c hstart hsession
    have h := hpaged start hstart
    have hf := h.followed manager items c hsession
    exact ⟨hf.under, hf.increasing, hf.complete, hf.sealed.noLateCommit h.sound⟩

/-- `Tracker::open` on a new file, and one `Events` request of `"m"` on its first pass. -/
def askAt (after : Nat) : List Action :=
  [.openStart "x", .opened, .history .readable, .recv (some ("m", after, 200)), .collect,
   .syncGap true, .clean .notDue, .ceiling, .answer]

/-- One admission of `("m", "c")` that the writer commits, up to the writer's next wait. -/
def commitOne : List Action :=
  [.beginCall "m" "c" "COM1" 7 "1108", .acquire 0, .read 0 none, .receive 0 none, .reserve 0 sampleTime,
   .recv (some ("m", 0, 200)), .collect, .syncGap true, .save, .note, .clean .notDue, .ceiling, .answer]

def committedRow : EventRow := eventRow admittedOnce

/-- A cursor beyond the counter is handed back as `next_cursor`, and row 1 is committed under it. -/
theorem cursor_beyond_counter_misses_commit : ∃ s t a,
    exec (step sampleEnv) (Sys.initial "boot-1" Journal.empty) (askAt 10) = some s ∧
      s.answers = [a] ∧ a.query.manager = "m" ∧ a.page.nextCursor = 10 ∧
      exec (step sampleEnv) s commitOne = some t ∧
      committedRow ∈ t.journal.events ∧ committedRow.manager = "m" ∧ committedRow.revision ≤ 10 ∧
      committedRow ∉ s.journal.events := by
  have hs : (exec (step sampleEnv) (Sys.initial "boot-1" Journal.empty) (askAt 10)).map
      (fun s => (s.answers, s.journal.events)) = some ([⟨⟨"m", 10, 200⟩, 0, ⟨[], 10, 0, false⟩⟩], []) := by
    decide +kernel
  have ht : (exec (step sampleEnv) (Sys.initial "boot-1" Journal.empty) (askAt 10 ++ commitOne)).map
      (fun t => t.journal.events) = some [committedRow] := by decide +kernel
  obtain ⟨t, ht, hevents⟩ := Option.map_eq_some_iff.mp ht
  obtain ⟨s, hmid, ht⟩ := exec_append.mp ht
  rw [hmid, Option.map_some] at hs
  obtain ⟨hanswers, hnone⟩ := Prod.mk.inj (Option.some.inj hs)
  refine ⟨s, t, _, hmid, hanswers, rfl, rfl, ht, ?_, by decide, by decide, ?_⟩
  · rw [hevents]
    exact List.mem_singleton_self _
  · rw [hnone]
    exact List.not_mem_nil

def emptyAnswer : Answer := ⟨⟨"m", 0, 200⟩, 0, ⟨[], 0, 0, false⟩⟩

def fullAnswer : Answer := ⟨⟨"m", 0, 200⟩, 1, ⟨[committedRow.data], 1, 1, false⟩⟩

/-- A client that starts at 0 gathers the row of the second pass. -/
theorem events_paging_from_zero : ∃ s,
    exec (step sampleEnv) (Sys.initial "boot-1" Journal.empty) (askAt 0 ++ commitOne) = some s ∧
      Session "m" 0 s.answers [committedRow.data] 1 ∧
      (∀ e, s.journal.Between "m" 0 1 e → e.data ∈ [committedRow.data]) ∧ NoLateCommit sampleEnv s 1 := by
  have hs : (exec (step sampleEnv) (Sys.initial "boot-1" Journal.empty) (askAt 0 ++ commitOne)).map
      (fun s => s.answers) = some [emptyAnswer, fullAnswer] := by decide +kernel
  obtain ⟨s, hrun, hanswers⟩ := Option.map_eq_some_iff.mp hs
  have hsession : Session "m" 0 s.answers [committedRow.data] 1 := by
    have hfirst : Session "m" 0 [emptyAnswer] [] 0 := .page emptyAnswer rfl .nil
    rw [hanswers]
    exact .page fullAnswer rfl hfirst
  obtain ⟨-, -, hall, hlate⟩ := (events_paging sampleEnv "boot-1" Journal.empty (askAt 0 ++ commitOne) s
    hrun).2 "m" 0 [committedRow.data] 1 (Nat.zero_le _) hsession
  exact ⟨s, hrun, hsession, hall, hlate⟩

end RcdServer.Tracking
