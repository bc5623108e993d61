import Mathlib.Data.List.Nodup
import Mathlib.Data.List.Perm.Subperm
import Mathlib.Data.Nat.ModEq
import RcdServer.Lib.Run

/-!
# The poll schedule

`Schedule` of `poller.rs` in the loop of `run_worker_with_wait` over one connection; the next
connection starts with a new schedule. Times are nanoseconds since the start of the clock.
-/
namespace RcdServer.Communicate.Polling

open Lib.Run

structure Schedule where
  due : List Nat
  cursor : Nat
  deriving DecidableEq

def Schedule.new (count now : Nat) : Schedule := ⟨List.replicate count now, 0⟩

def Schedule.dueAt (s : Schedule) (index : Nat) : Nat := s.due.getD index 0

def Schedule.indexAt (s : Schedule) (offset : Nat) : Nat := (s.cursor + offset) % s.due.length

def Schedule.next (s : Schedule) (now : Nat) : Schedule × Option Nat :=
  match (List.range s.due.length).find? fun offset => s.dueAt (s.indexAt offset) ≤ now with
  | some offset =>
    ({ s with cursor := (s.indexAt offset + 1) % s.due.length }, some (s.indexAt offset))
  | none => (s, none)

def Schedule.completed (s : Schedule) (index now interval : Nat) : Schedule :=
  { s with due := s.due.set index (now + interval) }

/-! ## The loop of the worker -/

inductive Entry where
  | selected (index now : Nat)
  | idle (now : Nat)
  | completed (index now : Nat)
  deriving DecidableEq

/-- The task that is being executed, the last reading of the clock, and what has happened. -/
structure Worker where
  schedule : Schedule
  running : Option Nat
  time : Nat
  log : List Entry
  deriving DecidableEq

inductive Action where
  | next (now : Nat)
  | completed (now : Nat)
  deriving DecidableEq

def Worker.new (count now : Nat) : Worker := ⟨Schedule.new count now, none, now, []⟩

def step (interval : Nat → Nat) (w : Worker) : Action → Option Worker
  | .next now =>
    if w.running = none ∧ w.time ≤ now then
      match w.schedule.next now with
      | (schedule, some index) => some ⟨schedule, some index, now, w.log ++ [.selected index now]⟩
      | (schedule, none) => some ⟨schedule, none, now, w.log ++ [.idle now]⟩
    else none
  | .completed now =>
    match w.running with
    | some index =>
      if w.time ≤ now then
        some ⟨w.schedule.completed index now (interval index), none, now,
          w.log ++ [.completed index now]⟩
      else none
    | none => none

def Action.time : Action → Nat
  | .next now => now
  | .completed now => now

def Action.isNext : Action → Bool
  | .next _ => true
  | .completed _ => false

def Entry.selection : Entry → Option Nat
  | .selected index _ => some index
  | _ => none

def selections (log : List Entry) : List Nat := log.filterMap Entry.selection

/-- A task is not selected before its interval is over. -/
def Spaced (interval : Nat → Nat) : Entry → Entry → Prop
  | .completed i c, .selected j t => i = j → c + interval i ≤ t
  | _, _ => True

/-- What is selected before a task that is due, and that the search for it does not fail. -/
structure InTurn (count task calls : Nat) (selected : List Nat) : Prop where
  once : (selected.takeWhile (· ≠ task)).Nodup
  others : (selected.takeWhile (· ≠ task)).length ≤ count - 1
  progress : task ∈ selected ∨ selected.length = calls

/-! ## One search -/

variable {s s' : Schedule} {now : Nat}

theorem indexAt_lt (h : s.cursor < s.due.length) (offset : Nat) :
    s.indexAt offset < s.due.length := Nat.mod_lt _ (Nat.zero_lt_of_lt h)

/-- A search that starts at the cursor comes to every task. -/
theorem exists_indexAt (h : s.cursor < s.due.length) {task : Nat} (ht : task < s.due.length) :
    ∃ offset < s.due.length, s.indexAt offset = task := by
  by_cases hle : s.cursor ≤ task
  · refine ⟨task - s.cursor, by omega, ?_⟩
    rw [Schedule.indexAt, Nat.add_sub_cancel' hle, Nat.mod_eq_of_lt ht]
  · refine ⟨task + s.due.length - s.cursor, by omega, ?_⟩
    rw [Schedule.indexAt, Nat.add_sub_cancel' (by omega), Nat.add_mod_right, Nat.mod_eq_of_lt ht]

theorem indexAt_inj {j k : Nat} (hj : j < s.due.length) (hk : k < s.due.length)
    (h : s.indexAt j = s.indexAt k) : j = k := by
  have hmod : j ≡ k [MOD s.due.length] := Nat.ModEq.add_left_cancel' s.cursor h
  exact hmod.eq_of_lt_of_lt hj hk

/-- The search goes on behind the task that was selected. -/
theorem indexAt_moved {offset : Nat} (hcursor : s'.cursor = (s.indexAt offset + 1) % s.due.length)
    (hdue : s'.due = s.due) (k : Nat) : s'.indexAt k = s.indexAt (offset + 1 + k) := by
  rw [Schedule.indexAt, hcursor, hdue, Schedule.indexAt, Schedule.indexAt, Nat.mod_add_mod,
    Nat.add_assoc, Nat.mod_add_mod]
  congr 1
  omega

theorem next_some {index : Nat} (h : s.next now = (s', some index)) :
    ∃ offset < s.due.length, index = s.indexAt offset ∧ s.dueAt index ≤ now ∧
      (∀ j < offset, now < s.dueAt (s.indexAt j)) ∧
      s'.cursor = (s.indexAt offset + 1) % s.due.length ∧ s'.due = s.due := by
  rw [Schedule.next] at h
  split at h
  · rename_i offset hfind
    rw [List.find?_range_eq_some] at hfind
    obtain ⟨hdue, hrange, hbefore⟩ := hfind
    rw [Prod.mk.injEq, Option.some.injEq] at h
    obtain ⟨rfl, rfl⟩ := h
    refine ⟨offset, List.mem_range.mp hrange, rfl, of_decide_eq_true hdue, ?_, rfl, rfl⟩
    intro j hj
    simpa using hbefore j hj
  · cases h

theorem next_none (h : s.next now = (s', none)) :
    s' = s ∧ ∀ offset < s.due.length, now < s.dueAt (s.indexAt offset) := by
  rw [Schedule.next] at h
  split at h
  · cases h
  · rename_i hfind
    rw [List.find?_range_eq_none] at hfind
    refine ⟨(Prod.mk.inj h).1.symm, fun offset hoffset => ?_⟩
    simpa using hfind offset hoffset

/-- Nothing is selected exactly when nothing is due. -/
theorem next_none_iff (hcursor : s.cursor < s.due.length ∨ s.due.length = 0) (now : Nat) :
    (s.next now).2 = none ↔ ∀ i < s.due.length, now < s.dueAt i := by
  constructor
  · intro h i hi
    have hnext : s.next now = ((s.next now).1, none) := Prod.ext rfl h
    rcases hcursor with hlt | hnil
    · obtain ⟨offset, hoffset, rfl⟩ := exists_indexAt hlt hi
      exact (next_none hnext).2 offset hoffset
    · omega
  · intro h
    cases hsome : (s.next now).2 with
    | none => rfl
    | some index =>
      have hnext : s.next now = ((s.next now).1, some index) := Prod.ext rfl hsome
      obtain ⟨offset, hoffset, rfl, hdue, -⟩ := next_some hnext
      rcases hcursor with hlt | hnil
      · have := h _ (indexAt_lt hlt offset)
        omega
      · omega

theorem length_completed (s : Schedule) (index now interval : Nat) :
    (s.completed index now interval).due.length = s.due.length := List.length_set

theorem dueAt_completed {index : Nat} (h : index < s.due.length) (now interval i : Nat) :
    (s.completed index now interval).dueAt i = if i = index then now + interval else s.dueAt i := by
  rw [Schedule.dueAt, Schedule.completed, List.getD_eq_getElem?_getD, List.getElem?_set]
  by_cases hi : i = index
  · rw [if_pos hi.symm, if_pos h, if_pos hi]
    rfl
  · rw [if_neg (Ne.symm hi), if_neg hi, Schedule.dueAt, List.getD_eq_getElem?_getD]

/-! ## Steps -/

section
variable {interval : Nat → Nat} {w w' : Worker}

/-- All that a step can do. -/
theorem step_cases {a : Action} (h : step interval w a = some w') :
    (∃ now index, a = .next now ∧ w.running = none ∧ w.time ≤ now ∧
      w.schedule.next now = (w'.schedule, some index) ∧ w'.running = some index ∧
      w'.time = now ∧ w'.log = w.log ++ [.selected index now]) ∨
    (∃ now, a = .next now ∧ w.running = none ∧ w.time ≤ now ∧
      w.schedule.next now = (w'.schedule, none) ∧ w'.running = none ∧ w'.time = now ∧
      w'.log = w.log ++ [.idle now]) ∨
    (∃ now index, a = .completed now ∧ w.running = some index ∧ w.time ≤ now ∧
      w'.schedule = w.schedule.completed index now (interval index) ∧ w'.running = none ∧
      w'.time = now ∧ w'.log = w.log ++ [.completed index now]) := by
  cases a with
  | next now =>
    rw [step] at h
    split_ifs at h with hidle
    cases hnext : w.schedule.next now with
    | mk schedule result =>
      cases result with
      | some index =>
        simp only [hnext, Option.some.injEq] at h
        subst h
        exact Or.inl ⟨now, index, rfl, hidle.1, hidle.2, hnext, rfl, rfl, rfl⟩
      | none =>
        simp only [hnext, Option.some.injEq] at h
        subst h
        exact Or.inr (Or.inl ⟨now, rfl, hidle.1, hidle.2, hnext, rfl, rfl, rfl⟩)
  | completed now =>
    rw [step] at h
    cases hrunning : w.running with
    | none => simp only [hrunning] at h; cases h
    | some index =>
      simp only [hrunning] at h
      split_ifs at h with htime
      obtain rfl := Option.some.inj h
      exact Or.inr (Or.inr ⟨now, index, rfl, rfl, htime, rfl, rfl, rfl, rfl⟩)

/-- What holds between two steps of a run over `count` tasks. -/
structure Inv (interval : Nat → Nat) (count : Nat) (w : Worker) : Prop where
  tasks : w.schedule.due.length = count
  cursor : w.schedule.cursor < count ∨ count = 0
  running : ∀ index, w.running = some index → index < count
  waits : ∀ i c, Entry.completed i c ∈ w.log → c ≤ w.time ∧ c + interval i ≤ w.schedule.dueAt i
  spaced : w.log.Pairwise (Spaced interval)

theorem inv_new (interval : Nat → Nat) (count now : Nat) :
    Inv interval count (Worker.new count now) where
  tasks := List.length_replicate
  cursor := (Nat.eq_zero_or_pos count).symm
  running := nofun
  waits := fun _ _ h => absurd h List.not_mem_nil
  spaced := List.Pairwise.nil

theorem Inv.cursor_lt {count : Nat} (h : Inv interval count w) (hpos : 0 < count) :
    w.schedule.cursor < w.schedule.due.length := by
  have := h.cursor
  rw [h.tasks]
  omega

theorem step_inv {count : Nat} {a : Action} (h : Inv interval count w)
    (hstep : step interval w a = some w') : Inv interval count w' := by
  rcases step_cases hstep with ⟨now, index, -, -, htime, hnext, hrun, htime', hlog⟩ |
    ⟨now, -, -, htime, hnext, hrun, htime', hlog⟩ |
    ⟨now, index, -, hrun, htime, hsched, hrun', htime', hlog⟩
  · obtain ⟨offset, hoffset, hindex, hdue, -, hcursor, hsame⟩ := next_some hnext
    have hpos : 0 < count := by rw [← h.tasks]; exact Nat.zero_lt_of_lt hoffset
    have hkeep : ∀ i, w'.schedule.dueAt i = w.schedule.dueAt i := fun i => by
      rw [Schedule.dueAt, Schedule.dueAt, hsame]
    refine ⟨by rw [hsame, h.tasks], Or.inl ?_, ?_, ?_, ?_⟩
    · rw [hcursor, h.tasks]
      exact Nat.mod_lt _ hpos
    · intro i hi
      obtain rfl : index = i := Option.some.inj (hrun.symm.trans hi)
      rw [hindex, ← h.tasks]
      exact indexAt_lt (h.cursor_lt hpos) offset
    · intro i c hc
      rw [hlog, List.mem_append, List.mem_singleton] at hc
      obtain ⟨hbefore, hwait⟩ := h.waits i c (hc.resolve_right nofun)
      rw [htime', hkeep]
      exact ⟨Nat.le_trans hbefore htime, hwait⟩
    · rw [hlog, List.pairwise_append]
      refine ⟨h.spaced, List.pairwise_singleton _ _, ?_⟩
      intro e he e' he'
      rw [List.mem_singleton.mp he']
      cases e with
      | completed i c =>
        rintro rfl
        exact Nat.le_trans (h.waits i c he).2 hdue
      | selected | idle => exact trivial
  · obtain ⟨hsame, -⟩ := next_none hnext
    refine ⟨by rw [hsame, h.tasks], by rw [hsame]; exact h.cursor, by simp [hrun], ?_, ?_⟩
    · intro i c hc
      rw [hlog, List.mem_append, List.mem_singleton] at hc
      obtain ⟨hbefore, hwait⟩ := h.waits i c (hc.resolve_right nofun)
      rw [htime', hsame]
      exact ⟨Nat.le_trans hbefore htime, hwait⟩
    · rw [hlog, List.pairwise_append]
      refine ⟨h.spaced, List.pairwise_singleton _ _, ?_⟩
      intro e he e' he'
      rw [List.mem_singleton.mp he']
      cases e <;> exact trivial
  · have hindex : index < w.schedule.due.length := by rw [h.tasks]; exact h.running index hrun
    refine ⟨by rw [hsched, length_completed, h.tasks], by rw [hsched]; exact h.cursor,
      by simp [hrun'], ?_, ?_⟩
    · intro i c hc
      rw [hlog, List.mem_append, List.mem_singleton] at hc
      rw [hsched, htime', dueAt_completed hindex]
      rcases hc with hc | hc
      · obtain ⟨hbefore, hwait⟩ := h.waits i c hc
        refine ⟨Nat.le_trans hbefore htime, ?_⟩
        split_ifs with hi
        · rw [hi]
          omega
        · exact hwait
      · obtain ⟨rfl, rfl⟩ := Entry.completed.inj hc
        rw [if_pos rfl]
        exact ⟨Nat.le_refl _, Nat.le_refl _⟩
    · rw [hlog, List.pairwise_append]
      refine ⟨h.spaced, List.pairwise_singleton _ _, ?_⟩
      intro e he e' he'
      rw [List.mem_singleton.mp he']
      cases e <;> exact trivial

theorem run_inv {count start : Nat} {as : List Action}
    (h : exec (step interval) (Worker.new count start) as = some w) : Inv interval count w :=
  exec_invariant (Inv interval count) (fun _ _ _ => step_inv) (inv_new interval count start) h

theorem step_log {a : Action} (h : step interval w a = some w') : ∃ e, w'.log = w.log ++ [e] := by
  rcases step_cases h with ⟨now, index, -, -, -, -, -, -, hlog⟩ | ⟨now, -, -, -, -, -, -, hlog⟩ |
    ⟨now, index, -, -, -, -, -, -, hlog⟩
  · exact ⟨_, hlog⟩
  · exact ⟨_, hlog⟩
  · exact ⟨_, hlog⟩

theorem exec_log {as : List Action} (h : exec (step interval) w as = some w') :
    ∃ new, w'.log = w.log ++ new := by
  induction as generalizing w with
  | nil =>
    obtain rfl : w = w' := by simpa [exec] using h
    exact ⟨[], (List.append_nil _).symm⟩
  | cons a as ih =>
    obtain ⟨mid, hmid, hrest⟩ := exec_cons.mp h
    obtain ⟨e, he⟩ := step_log hmid
    obtain ⟨new, hnew⟩ := ih hrest
    exact ⟨e :: new, by rw [hnew, he, List.append_assoc, List.singleton_append]⟩

/-! ## Turns -/

theorem selections_selected (index now : Nat) (log : List Entry) :
    selections (.selected index now :: log) = index :: selections log := rfl

theorem selections_completed (index now : Nat) (log : List Entry) :
    selections (.completed index now :: log) = selections log := rfl

/-- The tasks in front of one that is due are selected in the order of the search, each once. -/
theorem turns_of_due {count task now distance : Nat} {as : List Action} {new : List Entry}
    (h : Inv interval count w) (hdistance : distance < count)
    (htask : w.schedule.indexAt distance = task) (hidle : w.running ≠ some task)
    (hdue : w.schedule.dueAt task ≤ now) (hlater : ∀ a ∈ as, now ≤ a.time)
    (hrun : exec (step interval) w as = some w') (hlog : w'.log = w.log ++ new) :
    (∃ offsets : List Nat, offsets.Pairwise (· < ·) ∧ (∀ k ∈ offsets, k < distance) ∧
      (selections new).takeWhile (· ≠ task) = offsets.map w.schedule.indexAt) ∧
    (task ∈ selections new ∨ (selections new).length = (as.filter Action.isNext).length) := by
  induction as generalizing w distance new with
  | nil =>
    obtain rfl : w = w' := by simpa [exec] using hrun
    obtain rfl : new = [] := List.self_eq_append_right.mp hlog
    exact ⟨⟨[], List.Pairwise.nil, by simp, rfl⟩, Or.inr rfl⟩
  | cons a as ih =>
    obtain ⟨mid, hmid, hrest⟩ := exec_cons.mp hrun
    have hmidInv := step_inv h hmid
    have hrestLater : ∀ a' ∈ as, now ≤ a'.time := fun a' ha' =>
      hlater a' (List.mem_cons_of_mem a ha')
    obtain ⟨more, hmore⟩ := exec_log hrest
    have hsplit : ∀ e, mid.log = w.log ++ [e] → new = e :: more := by
      intro e he
      rw [hmore, he, List.append_assoc] at hlog
      exact (List.append_cancel_left hlog).symm
    have hwithin : distance < w.schedule.due.length := by rw [h.tasks]; exact hdistance
    rcases step_cases hmid with ⟨t, index, rfl, -, -, hnext, hrunning, -, hentry⟩ |
      ⟨t, rfl, -, -, hnext, -, -, -⟩ | ⟨t, index, rfl, hrunning, -, hsched, hrunning', -, hentry⟩
    · -- a task is selected: the one that is due, or one in front of it
      obtain ⟨offset, hoffset, rfl, -, hbefore, hcursor, hsame⟩ := next_some hnext
      obtain rfl := hsplit _ hentry
      have hle : offset ≤ distance := by
        by_contra hgt
        have hnot := hbefore distance (Nat.not_le.mp hgt)
        have htime : now ≤ t := hlater _ List.mem_cons_self
        rw [htask] at hnot
        omega
      rcases Nat.lt_or_eq_of_le hle with hlt | rfl
      · have hother : w.schedule.indexAt offset ≠ task := by
          intro heq
          have := indexAt_inj hoffset hwithin (heq.trans htask.symm)
          omega
        have hmoved := indexAt_moved hcursor hsame
        have hdistance' : distance - offset - 1 < count := by omega
        have htask' : mid.schedule.indexAt (distance - offset - 1) = task := by
          rw [hmoved, show offset + 1 + (distance - offset - 1) = distance by omega, htask]
        have hdue' : mid.schedule.dueAt task ≤ now := by
          rw [Schedule.dueAt, hsame]
          exact hdue
        have hidle' : mid.running ≠ some task := by
          rw [hrunning]
          exact fun heq => hother (Option.some.inj heq)
        obtain ⟨⟨offsets, hordered, hshort, htake⟩, hprogress⟩ :=
          ih hmidInv hdistance' htask' hidle' hdue' hrestLater hrest hmore
        refine ⟨⟨offset :: offsets.map (offset + 1 + ·), ?_, ?_, ?_⟩, ?_⟩
        · refine List.Pairwise.cons ?_ (hordered.map _ fun a b hab => Nat.add_lt_add_left hab _)
          intro k hk
          obtain ⟨j, -, rfl⟩ := List.mem_map.mp hk
          omega
        · intro k hk
          rcases List.mem_cons.mp hk with rfl | hk
          · exact hlt
          · obtain ⟨j, hj, rfl⟩ := List.mem_map.mp hk
            have := hshort j hj
            omega
        · rw [selections_selected, List.takeWhile_cons_of_pos (by simpa using hother),
            List.map_cons, List.map_map, htake]
          congr 1
          exact List.map_congr_left fun k _ => hmoved k
        · rw [selections_selected, List.filter_cons_of_pos rfl, List.length_cons, List.length_cons]
          rcases hprogress with hmem | hlen
          · exact Or.inl (List.mem_cons_of_mem _ hmem)
          · exact Or.inr (congrArg (· + 1) hlen)
      · refine ⟨⟨[], List.Pairwise.nil, by simp, ?_⟩, Or.inl ?_⟩
        · rw [selections_selected, List.takeWhile_cons_of_neg (by simpa using htask)]
          rfl
        · rw [selections_selected, htask]
          exact List.mem_cons_self
    · -- the search does not fail
      exfalso
      have hnot := (next_none hnext).2 distance hwithin
      have htime : now ≤ t := hlater _ List.mem_cons_self
      rw [htask] at hnot
      omega
    · -- another task is completed
      have hother : task ≠ index := fun heq => hidle (heq ▸ hrunning)
      obtain rfl := hsplit _ hentry
      have hindexAt : mid.schedule.indexAt = w.schedule.indexAt := by
        funext k
        rw [Schedule.indexAt, Schedule.indexAt, hsched, length_completed]
        rfl
      have hdue' : mid.schedule.dueAt task ≤ now := by
        have hindex : index < w.schedule.due.length := by
          rw [h.tasks]
          exact h.running index hrunning
        rw [hsched, dueAt_completed hindex, if_neg hother]
        exact hdue
      rw [← hindexAt] at htask ⊢
      rw [selections_completed, List.filter_cons_of_neg (by simp [Action.isNext])]
      exact ih hmidInv hdistance htask (by simp [hrunning']) hdue' hrestLater hrest hmore

/-- A schedule of any number of tasks, driven by the worker at times that never go back. -/
theorem schedule_fair (interval : Nat → Nat) (count start : Nat) {as : List Action}
    (h : exec (step interval) (Worker.new count start) as = some w) :
    w.schedule.due.length = count ∧ (w.schedule.cursor < count ∨ count = 0) ∧
    (∀ now, (w.schedule.next now).2 = none ↔ ∀ i < count, now < w.schedule.dueAt i) ∧
    w.log.Pairwise (Spaced interval) ∧
    ∀ task now, task < count → w.running ≠ some task → w.schedule.dueAt task ≤ now →
      ∀ more w' new, (∀ a ∈ more, now ≤ a.time) → exec (step interval) w more = some w' →
        w'.log = w.log ++ new →
        InTurn count task (more.filter Action.isNext).length (selections new) := by
  have hinv := run_inv h
  refine ⟨hinv.tasks, hinv.cursor, ?_, hinv.spaced, ?_⟩
  · intro now
    rw [next_none_iff (by rw [hinv.tasks]; exact hinv.cursor), hinv.tasks]
  · intro task now htask hidle hdue more w' new hlater hrun hlog
    have hcursor := hinv.cursor_lt (Nat.zero_lt_of_lt htask)
    have hbound : task < w.schedule.due.length := by rw [hinv.tasks]; exact htask
    obtain ⟨distance, hdistance, hindex⟩ := exists_indexAt hcursor hbound
    have hshort : distance < count := by rw [← hinv.tasks]; exact hdistance
    obtain ⟨⟨offsets, hordered, hbelow, htake⟩, hprogress⟩ :=
      turns_of_due hinv hshort hindex hidle hdue hlater hrun hlog
    have hnodup : offsets.Nodup := hordered.imp fun hab => Nat.ne_of_lt hab
    refine ⟨?_, ?_, hprogress⟩
    · rw [htake]
      refine List.Nodup.map_on ?_ hnodup
      intro j hj k hk heq
      exact indexAt_inj (Nat.lt_trans (hbelow j hj) hdistance)
        (Nat.lt_trans (hbelow k hk) hdistance) heq
    · have hrange : offsets ⊆ List.range distance := fun k hk => List.mem_range.mpr (hbelow k hk)
      have hlen := (hnodup.subperm hrange).length_le
      rw [List.length_range] at hlen
      rw [htake, List.length_map]
      omega

/-- Two tasks of which the first is completed while the second is due. -/
theorem schedule_fair_sample : InTurn 2 1 1 (selections [.selected 1 5]) := by
  have hrun : exec (step fun _ => 10) (Worker.new 2 0) [.next 0, .completed 3] =
      some ⟨⟨[13, 0], 1⟩, none, 3, [.selected 0 0, .completed 0 3]⟩ := by decide
  have hmore : exec (step fun _ => 10)
      ⟨⟨[13, 0], 1⟩, none, 3, [.selected 0 0, .completed 0 3]⟩ [.next 5] =
      some ⟨⟨[13, 0], 0⟩, some 1, 5, [.selected 0 0, .completed 0 3, .selected 1 5]⟩ := by decide
  exact (schedule_fair (fun _ => 10) 2 0 hrun).2.2.2.2 1 5 (by decide) (by decide) (by decide)
    [.next 5] _ _ (by decide) hmore rfl

end

end RcdServer.Communicate.Polling
