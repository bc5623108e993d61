import RcdServer.Tracking.Memory

/-!
# Runs of the memory

The tables of the memory agree in every state of a boot. A `begin` call that holds the admission
mutex is alone between its lookup and its return, so the entry it made is there when it reads it
again, and only calls without an entry return an error.
-/
namespace RcdServer.Tracking

open Lib.Run (exec exec_history Meets meets_append)

/-- `update` runs with a closure of the source. -/
def Action.OfSource : Action → Prop
  | .update _ _ change _ => SourceChange change
  | _ => True

/-- The `begin` call that an action continues. -/
def Action.caller : Action → Option Nat
  | .acquire i | .read i _ | .receive i _ | .reserve i _ | .confirm i | .giveUp i | .mark i _
  | .reread i => some i
  | _ => none

/-- Between the admission mutex and the return. -/
def BeginPc.inside : BeginPc → Bool
  | .start | .done _ => false
  | _ => true

/-- The call has made its entry and not read it again. -/
def BeginPc.entered : BeginPc → Bool
  | .waiting _ | .marking _ | .rereading _ => true
  | _ => false

def BeginPc.again : BeginPc → Bool
  | .relooking _ _ => true
  | _ => false

/-- Snapshots that the writer holds outside the mutex. -/
def WriterPc.held : WriterPc → List Snapshot
  | .syncing values | .saving values => values
  | .noting v values => v :: values
  | _ => []

/-! ## Invariant -/

structure Agreed (env : Env) (s : Sys) : Prop where
  memory : Memory env s.state
  alone : ∀ (i : Nat) (c : Call), s.calls[i]? = some c → c.pc.inside = true → s.admission = some i
  entered : ∀ (i : Nat) (c : Call), s.calls[i]? = some c → c.pc.entered = true → c.order.key ∈ s.state.entries
  once : ∀ (i : Nat) (c : Call), s.calls[i]? = some c → c.pc.again = false

/-- The tables that a rejected call must leave alone. -/
structure SameTables (s t : State) : Prop where
  entries : t.entries = s.entries
  ack : t.ack = s.ack
  dirty : t.dirty = s.dirty
  persisted : t.persisted = s.persisted
  revision : t.revision = s.revision
  seen : t.seen = s.seen

theorem SameTables.rfl {s : State} : SameTables s s :=
  ⟨Eq.refl _, Eq.refl _, Eq.refl _, Eq.refl _, Eq.refl _, Eq.refl _⟩

theorem SameTables.degrade (s : State) (error : String) : SameTables s (s.degrade error) :=
  ⟨Eq.refl _, Eq.refl _, Eq.refl _, Eq.refl _, Eq.refl _, Eq.refl _⟩

theorem SameTables.keeps {s t : State} (h : SameTables s t) : s.Keeps t :=
  .of_entries h.entries h.persisted h.seen

theorem SameTables.memory {env : Env} {s t : State} (h : SameTables s t) (hs : Memory env s) :
    Memory env t :=
  hs.frame h.entries h.ack (by rw [h.seen])

theorem entered_inside {pc : BeginPc} (h : pc.entered = true) : pc.inside = true := by
  cases pc <;> first | rfl | cases h

/-- One step of call `i` to `pc`, with what it does to the memory. -/
structure Progress (env : Env) (s : Sys) (i : Nat) (c : Call) (pc : BeginPc) (state : State) :
    Prop where
  get : s.calls[i]? = some c
  turn : c.pc.inside = true ∨ s.admission = none
  memory : Memory env state
  entered : pc.entered = true → c.order.key ∈ state.entries
  once : pc.again = false
  change : s.state.Keeps state ∨ Admission env s.state state c.order.key
  quiet : pc.reserved = false → c.pc.reserved = false ∧ SameTables s.state state

theorem Progress.tables {env : Env} {s : Sys} {i : Nat} {c : Call} {pc : BeginPc} {state : State}
    (h : Agreed env s) (hget : s.calls[i]? = some c)
    (hturn : c.pc.inside = true ∨ s.admission = none) (hsame : SameTables s.state state)
    (hentered : pc.entered = true → c.pc.entered = true) (honce : pc.again = false)
    (hquiet : pc.reserved = false → c.pc.reserved = false) : Progress env s i c pc state where
  get := hget
  turn := hturn
  memory := hsame.memory h.memory
  entered := by
    intro hpc
    rw [hsame.entries]
    exact h.entered i c hget (hentered hpc)
  once := honce
  change := .inl hsame.keeps
  quiet := fun hpc => ⟨hquiet hpc, hsame⟩

/-- A call that moves is the only one inside. -/
theorem Progress.agreed {env : Env} {s : Sys} {i : Nat} {c : Call} {pc : BeginPc} {state : State}
    (h : Agreed env s) (hp : Progress env s i c pc state) :
    Agreed env ({ s with state := state }.move i c pc) := by
  have hothers : ∀ j d, j ≠ i → s.calls[j]? = some d → d.pc.inside = false := by
    intro j d hne hd
    cases hin : d.pc.inside with
    | false => rfl
    | true =>
      have hj := h.alone j d hd hin
      rcases hp.turn with hc | hnone
      · exact absurd (Option.some.inj (hj.symm.trans (h.alone i c hp.get hc))) hne
      · rw [hnone] at hj
        cases hj
  refine ⟨hp.memory, fun j d hd hin => ?_, fun j d hd hin => ?_, fun j d hd => ?_⟩
  · rcases getElem_set_cases hp.get hd with ⟨rfl, rfl⟩ | ⟨hne, hold⟩
    · have hfin : pc.finished = false := by cases pc <;> first | rfl | cases hin
      show (if pc.finished then none else some j) = some j
      rw [hfin]
      rfl
    · rw [hothers j d hne hold] at hin
      cases hin
  · rcases getElem_set_cases hp.get hd with ⟨rfl, rfl⟩ | ⟨hne, hold⟩
    · exact hp.entered hin
    · have := entered_inside hin
      rw [hothers j d hne hold] at this
      cases this
  · rcases getElem_set_cases hp.get hd with ⟨rfl, rfl⟩ | ⟨-, hold⟩
    · exact hp.once
    · exact h.once j d hold

section Calls

variable {env : Env} {s s' : Sys} {i : Nat} {c : Call}

/-- What an action of call `i` leads to. -/
def Goes (env : Env) (s s' : Sys) (i : Nat) : Prop :=
  ∃ c pc state, Progress env s i c pc state ∧ s' = { s with state := state }.move i c pc

theorem goes_acquire (h : Agreed env s) (hget : s.calls[i]? = some c)
    (hs : s.acquire i c = some s') : Goes env s s' i := by
  unfold Sys.acquire at hs
  split at hs
  · rename_i hpc
    split at hs
    · rename_i hfree
      have hstart : c.pc.reserved = false := by rw [hpc]; rfl
      split at hs
      · rename_i existing _
        obtain rfl := Option.some.inj hs
        refine ⟨c, .done (repeated c.order existing), s.state, ?_, rfl⟩
        exact .tables h hget (.inr hfree) .rfl (fun he => by cases he) rfl (fun _ => hstart)
      · obtain rfl := Option.some.inj hs
        refine ⟨c, .looking none, s.state, ?_, rfl⟩
        exact .tables h hget (.inr hfree) .rfl (fun he => by cases he) rfl (fun _ => hstart)
    · cases hs
  · cases hs

theorem goes_read (h : Agreed env s) {failure : Option String} (hget : s.calls[i]? = some c)
    (hs : s.read i c failure = some s') : Goes env s s' i := by
  simp only [Sys.read] at hs
  split at hs
  · rename_i hpc
    obtain rfl := Option.some.inj hs
    refine ⟨c, _, s.state, ?_, rfl⟩
    exact .tables h hget (.inl (by rw [hpc]; rfl)) .rfl (fun he => by cases he) rfl
      (fun _ => by rw [hpc]; rfl)
  · rename_i hpc
    have honce := h.once i c hget
    rw [hpc] at honce
    cases honce
  · cases hs

theorem goes_receive (h : Agreed env s) {lost : Option Lost} (hget : s.calls[i]? = some c)
    (hs : s.receive i c lost = some s') : Goes env s s' i := by
  unfold Sys.receive at hs
  split at hs
  · rename_i reply hpc
    obtain ⟨r, -, rfl⟩ := Option.map_eq_some_iff.mp hs
    have hin : c.pc.inside = true := by rw [hpc]; rfl
    have hopen : c.pc.reserved = false := by rw [hpc]; rfl
    have hmove : ∀ pc state, SameTables s.state state → pc.entered = false → pc.again = false →
        Progress env s i c pc state := fun pc state hsame hentered honce =>
      .tables h hget (.inl hin) hsame (fun he => by rw [hentered] at he; cases he) honce
        fun _ => hopen
    match r with
    | .ok (some existing) => exact ⟨c, _, s.state, hmove _ _ .rfl rfl rfl, rfl⟩
    | .ok none => exact ⟨c, _, s.state, hmove _ _ .rfl rfl rfl, rfl⟩
    | .error e =>
      simp only [Sys.receiveFirst]
      split
      · exact ⟨c, .cleared, _, hmove _ _ (.degrade s.state e) rfl rfl, rfl⟩
      · exact ⟨c, .done (.error _), _, hmove _ _ (.degrade s.state e) rfl rfl, rfl⟩
  · rename_i hpc
    have honce := h.once i c hget
    rw [hpc] at honce
    cases honce
  · cases hs

theorem goes_reserve (h : Agreed env s) {now : String} (hget : s.calls[i]? = some c)
    (hs : s.reserve env i c now = some s') : Goes env s s' i := by
  unfold Sys.reserve at hs
  split at hs
  · rename_i hpc
    have hin : c.pc.inside = true := by rw [hpc]; rfl
    have hopen : c.pc.reserved = false := by rw [hpc]; rfl
    split at hs
    · obtain rfl := Option.some.inj hs
      refine ⟨c, _, s.state, ?_, rfl⟩
      exact .tables h hget (.inl hin) .rfl (fun he => by cases he) rfl (fun _ => hopen)
    · split at hs
      · obtain rfl := Option.some.inj hs
        refine ⟨c, _, s.state, ?_, rfl⟩
        exact .tables h hget (.inl hin) .rfl (fun he => by cases he) rfl (fun _ => hopen)
      · rename_i state v hres
        obtain rfl := Option.some.inj hs
        have hadmission := h.memory.reserve hres
        refine ⟨c, .waiting v, state, ⟨hget, .inl hin, hadmission.memory, fun _ => hadmission.mem,
          rfl, .inr hadmission, fun hpc => by cases hpc⟩, rfl⟩
  · cases hs

theorem goes_confirm (h : Agreed env s) (hget : s.calls[i]? = some c)
    (hs : s.confirm i c = some s') : Goes env s s' i := by
  unfold Sys.confirm at hs
  split at hs
  · rename_i hpc
    split at hs
    · obtain rfl := Option.some.inj hs
      refine ⟨c, _, s.state, ?_, rfl⟩
      exact .tables h hget (.inl (by rw [hpc]; rfl)) .rfl (fun he => by cases he) rfl
        (fun hr => by cases hr)
    · cases hs
  · cases hs

theorem goes_giveUp (h : Agreed env s) (hget : s.calls[i]? = some c)
    (hs : s.giveUp i c = some s') : Goes env s s' i := by
  unfold Sys.giveUp at hs
  split at hs
  · rename_i hpc
    obtain rfl := Option.some.inj hs
    refine ⟨c, _, _, ?_, rfl⟩
    exact .tables h hget (.inl (by rw [hpc]; rfl)) (.degrade s.state _)
      (fun _ => by rw [hpc]; rfl) rfl (fun hr => by cases hr)
  · cases hs

theorem goes_mark (h : Agreed env s) {now : String} (hget : s.calls[i]? = some c)
    (hs : s.mark i c now = some s') : Goes env s s' i := by
  unfold Sys.mark at hs
  split at hs
  · rename_i v hpc
    obtain rfl := Option.some.inj hs
    have hkeeps := s.state.keeps_update c.order.port (some c.order.ack) .auditLost now
    refine ⟨c, .rereading v, _, ⟨hget, .inl (by rw [hpc]; rfl), ?_, fun _ => ?_, rfl, .inl hkeeps,
      fun hr => by cases hr⟩, rfl⟩
    · exact h.memory.update _ _ .auditLost now
    · exact (hkeeps.mem _).mpr (h.entered i c hget (by rw [hpc]; rfl))
  · cases hs

/-- The entry is still there: nobody else can have evicted it. -/
theorem goes_reread (h : Agreed env s) (hget : s.calls[i]? = some c)
    (hs : s.reread i c = some s') : Goes env s s' i := by
  unfold Sys.reread at hs
  split at hs
  · rename_i hpc
    split at hs
    · obtain rfl := Option.some.inj hs
      refine ⟨c, _, s.state, ?_, rfl⟩
      exact .tables h hget (.inl (by rw [hpc]; rfl)) .rfl (fun he => by cases he) rfl
        (fun hr => by cases hr)
    · rename_i hnone
      have hmem := h.entered i c hget (by rw [hpc]; rfl)
      obtain ⟨v, hv⟩ := Option.isSome_iff_exists.mp (AList.lookup_isSome.mpr hmem)
      rw [State.get, hv] at hnone
      cases hnone
  · cases hs

end Calls

/-! ## One step -/

/-- A key that the list of confirmed snapshots or the writer's pass still names. -/
def Sys.Confirms (s : Sys) (k : String) : Prop :=
  k ∈ s.state.persisted ∨ ∃ v ∈ s.writer.held, v.key = k

/-- What a step does to the keys of the tables. -/
structure Turn (env : Env) (s s' : Sys) : Prop where
  stays : ∀ k ∈ s.state.entries, k ∈ s'.state.entries ∨ s'.state.Gone k
  origin : ∀ k, s'.Confirms k → s.Confirms k ∨ k ∈ s.state.entries
  marked : ∀ k v w, s.state.entries.lookup k = some v → s'.state.entries.lookup k = some w →
    v.auditIncomplete = true → w.auditIncomplete = true
  fresh : ∀ k ∈ s'.state.entries,
    k ∈ s.state.entries ∨ ∃ b ∈ tombstones (env.sha256 k), b ∉ s.state.seen
  seen : s.state.seen ⊆ s'.state.seen

section Turns

variable {env : Env} {s s' : Sys}

theorem Turn.of_keeps (hchange : s.state.Keeps s'.state)
    (hheld : ∀ v ∈ s'.writer.held, v ∈ s.writer.held ∨ v.key ∈ s.state.entries) :
    Turn env s s' where
  stays := fun k hk => .inl ((hchange.mem k).mpr hk)
  origin := by
    rintro k (hk | ⟨v, hv, rfl⟩)
    · rw [hchange.persisted] at hk
      exact .inl (.inl hk)
    · exact (hheld v hv).imp (fun hold => .inr ⟨v, hold, rfl⟩) id
  marked := hchange.marked
  fresh := fun k hk => .inl ((hchange.mem k).mp hk)
  seen := by rw [hchange.seen]

theorem Turn.of_admission {k : String} (h : Admission env s.state s'.state k)
    (hwriter : s'.writer = s.writer) : Turn env s s' where
  stays := h.left
  origin := by
    rintro j (hj | hj)
    · exact .inl (.inl (h.persisted j hj))
    · rw [hwriter] at hj
      exact .inl (.inr hj)
  marked := by
    intro j v w hv hw hmark
    have hne : j ≠ k := by
      rintro rfl
      exact h.fresh (AList.lookup_isSome.mp (Option.isSome_of_eq_some hv))
    obtain rfl := Option.some.inj (hv.symm.trans (h.others j w hne hw))
    exact hmark
  fresh := by
    intro j hj
    by_cases hjk : j = k
    · exact .inr (hjk ▸ h.lowered)
    · obtain ⟨w, hw⟩ := Option.isSome_iff_exists.mp (AList.lookup_isSome.mpr hj)
      exact .inl (AList.lookup_isSome.mp (Option.isSome_of_eq_some (h.others j w hjk hw)))
  seen := h.seen

theorem Goes.turn {i : Nat} (h : Goes env s s' i) : Turn env s s' := by
  obtain ⟨c, pc, state, hp, rfl⟩ := h
  rcases hp.change with hkeeps | hadmission
  · exact .of_keeps hkeeps fun v hv => .inl hv
  · exact .of_admission hadmission rfl

theorem Goes.agreed {i : Nat} (hs : Agreed env s) (h : Goes env s s' i) : Agreed env s' := by
  obtain ⟨c, pc, state, hp, rfl⟩ := h
  exact hp.agreed hs

/-- A step outside the calls leaves their entries where they are. -/
theorem Agreed.frame (h : Agreed env s) (hmemory : Memory env s'.state)
    (hmem : ∀ k, k ∈ s.state.entries → k ∈ s'.state.entries)
    (hcalls : s'.calls = s.calls) (hadmission : s'.admission = s.admission) : Agreed env s' where
  memory := hmemory
  alone := by rw [hcalls, hadmission]; exact h.alone
  entered := by rw [hcalls]; exact fun i c hc hin => hmem _ (h.entered i c hc hin)
  once := by rw [hcalls]; exact h.once

theorem newCall_outside (env : Env) (manager command port : String) (ack : Nat)
    (payload : String) : (newCall env manager command port ack payload).pc.inside = false := by
  simp only [newCall]
  split
  · rfl
  · split <;> rfl

theorem agreed_arrive (h : Agreed env s) {c : Call} (hc : c.pc.inside = false) :
    Agreed env { s with calls := s.calls ++ [c] } where
  memory := h.memory
  alone := by
    intro i d hd hin
    rcases getElem_append_cases hd with hold | rfl
    · exact h.alone i d hold hin
    · rw [hc] at hin
      cases hin
  entered := by
    intro i d hd hin
    rcases getElem_append_cases hd with hold | rfl
    · exact h.entered i d hold hin
    · have := entered_inside hin
      rw [hc] at this
      cases this
  once := by
    intro i d hd
    rcases getElem_append_cases hd with hold | rfl
    · exact h.once i d hold
    · cases hpc : d.pc <;> first | rfl | (rw [hpc] at hc; cases hc)

theorem batch_keys (h : Memory env s.state) {v : Snapshot} (hv : v ∈ s.state.batch) :
    v.key ∈ s.state.entries := by
  obtain ⟨k, hk⟩ := State.mem_batch hv
  have hentry := h.buffered k v hk
  rw [h.keyed k v hentry]
  exact AList.lookup_isSome.mp (Option.isSome_of_eq_some hentry)

theorem saved_turn {v : Snapshot} (hstate : s'.state = s.state.saved v)
    (hv : v ∈ s.writer.held) (hheld : ∀ w ∈ s'.writer.held, w ∈ s.writer.held) :
    Turn env s s' where
  stays := fun k hk => .inl (by rw [hstate]; exact hk)
  origin := by
    rintro k (hk | ⟨w, hw, rfl⟩)
    · rw [hstate] at hk
      rcases (AList.mem_insert _).mp hk with rfl | hk
      · exact .inl (.inr ⟨v, hv, rfl⟩)
      · exact .inl (.inl hk)
    · exact .inl (.inr ⟨w, hheld w hw, rfl⟩)
  marked := by
    intro k x y hx hy hmark
    rw [hstate] at hy
    obtain rfl := Option.some.inj (hx.symm.trans hy)
    exact hmark
  fresh := fun k hk => .inl (by rw [hstate] at hk; exact hk)
  seen := by rw [hstate, State.saved_seen]

/-- A step of the writer keeps the cache and takes its values from there. -/
theorem WriterStep.agreed (h : WriterStep env s s') (hs : Agreed env s) :
    Agreed env s' ∧ Turn env s s' := by
  have hidle : ∀ {t : Sys}, s.state.Keeps t.state → Memory env t.state → t.calls = s.calls →
      t.admission = s.admission →
      (∀ v ∈ t.writer.held, v ∈ s.writer.held ∨ v.key ∈ s.state.entries) →
      Agreed env t ∧ Turn env s t := fun hkeeps hmemory hcalls hadmission hheld =>
    ⟨hs.frame hmemory (fun k hk => (hkeeps.mem k).mpr hk) hcalls hadmission, .of_keeps hkeeps hheld⟩
  have hrefl : s.state.Keeps s.state := .of_entries rfl rfl rfl
  have hdegrade : ∀ error, s.state.Keeps (s.state.degrade error) := fun _ =>
    .of_entries rfl rfl rfl
  cases h with
  | recv =>
    refine hidle hrefl hs.memory rfl rfl fun v hv => ?_
    dsimp only at hv
    split at hv <;> cases hv
  | notOpened error =>
    refine hidle (hdegrade error) (hs.memory.degrade error) rfl rfl fun v hv => ?_
    dsimp only at hv
    split at hv <;> cases hv
  | openStart => exact hidle hrefl hs.memory rfl rfl fun v hv => by cases hv
  | recover => exact hidle hrefl hs.memory rfl rfl fun v hv => by cases hv
  | opened gateway revision =>
    refine hidle (s.state.keeps_rebase revision) (hs.memory.rebase revision) rfl rfl fun v hv => ?_
    dsimp only at hv
    split at hv <;> cases hv
  | history => exact hidle hrefl hs.memory rfl rfl fun v hv => by cases hv
  | collect =>
    refine hidle hrefl hs.memory rfl rfl fun v hv => ?_
    dsimp only at hv
    split at hv
    · exact .inr (batch_keys hs.memory hv)
    · cases hv
  | syncGap values gap historyGap hw =>
    have hgap : s.state.Keeps { s.state with gap := gap } := .of_entries rfl rfl rfl
    refine hidle hgap (hs.memory.frame rfl rfl (Finset.Subset.refl _)) rfl rfl fun v hv => ?_
    rw [hw]
    exact .inl hv
  | save v rest hw =>
    refine hidle hrefl hs.memory rfl rfl fun v hv => ?_
    rw [hw]
    exact .inl hv
  | note v rest hw =>
    refine ⟨hs.frame (hs.memory.saved v) (fun k hk => hk) rfl rfl, saved_turn rfl ?_ ?_⟩
    · rw [hw]
      exact List.mem_cons_self
    · rw [hw]
      exact fun w hheld => List.mem_cons_of_mem _ hheld
  | saveFailed error =>
    exact hidle (s.state.keeps_saveFailed error) (hs.memory.saveFailed error) rfl rfl
      fun v hv => by cases hv
  | notDue => exact hidle hrefl hs.memory rfl rfl fun v hv => by cases hv
  | prune => exact hidle hrefl hs.memory rfl rfl fun v hv => by cases hv
  | pruneFailed error =>
    exact hidle (hdegrade error) (hs.memory.degrade error) rfl rfl fun v hv => by cases hv
  | ceiling => exact hidle hrefl hs.memory rfl rfl fun v hv => by cases hv
  | answer => exact hidle hrefl hs.memory rfl rfl fun v hv => by cases hv
  | noAnswer => exact hidle hrefl hs.memory rfl rfl fun v hv => by cases hv

end Turns

theorem step_goes {env : Env} {s s' : Sys} {a : Action} {i : Nat} (h : Agreed env s)
    (hcaller : a.caller = some i) (hs : step env s a = some s') : Goes env s s' i := by
  cases a <;> cases hcaller <;> obtain ⟨c, hget, hs⟩ := Sys.call_some hs
  case acquire => exact goes_acquire h hget hs
  case read => exact goes_read h hget hs
  case receive => exact goes_receive h hget hs
  case reserve => exact goes_reserve h hget hs
  case confirm => exact goes_confirm h hget hs
  case giveUp => exact goes_giveUp h hget hs
  case mark => exact goes_mark h hget hs
  case reread => exact goes_reread h hget hs

/-- The action is the arrival of call `i` or a step of it. -/
def Sys.Belongs (s : Sys) (i : Nat) : Action → Prop
  | .beginCall _ _ _ _ _ => s.calls.length = i
  | a => a.caller = some i

/-- An action is a step of a call, an arrival, an update, or a step of the writer. -/
theorem step_kinds {env : Env} {s s' : Sys} {a : Action} (hs : step env s a = some s') :
    (∃ i, a.caller = some i ∧ ∀ j, s.Belongs j a → j = i) ∨
      (∃ c : Call, c.pc.inside = false ∧ c.pc.reserved = false ∧
        s' = { s with calls := s.calls ++ [c] }) ∨
      (∃ port ack change now, a = .update port ack change now ∧
        s' = { s with state := s.state.update port ack change now }) ∨
      (WriterStep env s s' ∧ ∀ j, ¬ s.Belongs j a) := by
  have hcall : ∀ {i : Nat}, a.caller = some i → (∀ j, s.Belongs j a → a.caller = some j) →
      ∃ i, a.caller = some i ∧ ∀ j, s.Belongs j a → j = i := fun {i} hi hj =>
    ⟨i, hi, fun j hb => Option.some.inj ((hj j hb).symm.trans hi)⟩
  have hwriter : ∀ j : Nat, ¬ none = some j := fun j => (Option.some_ne_none j).symm
  cases a with
  | beginCall manager command port ack payload =>
    simp only [step] at hs
    split at hs
    · obtain rfl := Option.some.inj hs
      exact .inr (.inl ⟨_, newCall_outside .., newCall_not_reserved .., rfl⟩)
    · cases hs
  | update port ack change now =>
    simp only [step] at hs
    split at hs
    · exact .inr (.inr (.inl ⟨port, ack, change, now, rfl, (Option.some.inj hs).symm⟩))
    · cases hs
  | acquire i => exact .inl (hcall rfl fun _ => id)
  | read i => exact .inl (hcall rfl fun _ => id)
  | receive i => exact .inl (hcall rfl fun _ => id)
  | reserve i => exact .inl (hcall rfl fun _ => id)
  | confirm i => exact .inl (hcall rfl fun _ => id)
  | giveUp i => exact .inl (hcall rfl fun _ => id)
  | mark i => exact .inl (hcall rfl fun _ => id)
  | reread i => exact .inl (hcall rfl fun _ => id)
  | recv => exact .inr (.inr (.inr ⟨Sys.recv_step hs, hwriter⟩))
  | openStart => exact .inr (.inr (.inr ⟨Sys.openStart_step hs, hwriter⟩))
  | recover => exact .inr (.inr (.inr ⟨Sys.recover_step hs, hwriter⟩))
  | opened => exact .inr (.inr (.inr ⟨Sys.opened_step hs, hwriter⟩))
  | openFailed => exact .inr (.inr (.inr ⟨Sys.openFailed_step hs, hwriter⟩))
  | history => exact .inr (.inr (.inr ⟨Sys.history_step hs, hwriter⟩))
  | collect => exact .inr (.inr (.inr ⟨Sys.collect_step hs, hwriter⟩))
  | syncGap => exact .inr (.inr (.inr ⟨Sys.syncGap_step hs, hwriter⟩))
  | save => exact .inr (.inr (.inr ⟨Sys.save_step hs, hwriter⟩))
  | note => exact .inr (.inr (.inr ⟨Sys.note_step hs, hwriter⟩))
  | saveFailed => exact .inr (.inr (.inr ⟨Sys.saveFailed_step hs, hwriter⟩))
  | clean => exact .inr (.inr (.inr ⟨Sys.clean_step hs, hwriter⟩))
  | ceiling => exact .inr (.inr (.inr ⟨Sys.ceiling_step hs, hwriter⟩))
  | answer =>
    have hstep : WriterStep env s s' := Sys.answer_step hs
    exact .inr (.inr (.inr ⟨hstep, hwriter⟩))
  | noAnswer => exact .inr (.inr (.inr ⟨Sys.noAnswer_step hs, hwriter⟩))

/-- What every action keeps and does. -/
theorem agreed_step {env : Env} {s s' : Sys} {a : Action} (h : Agreed env s) (ha : a.OfSource)
    (hs : step env s a = some s') : Agreed env s' ∧ Turn env s s' := by
  rcases step_kinds hs with ⟨i, hi, _⟩ | ⟨c, hc, _, rfl⟩ | ⟨port, ack, change, now, rfl, rfl⟩ |
    ⟨hwriter, _⟩
  · exact ⟨(step_goes h hi hs).agreed h, (step_goes h hi hs).turn⟩
  · exact ⟨agreed_arrive h hc, .of_keeps (.of_entries rfl rfl rfl) fun v hv => .inl hv⟩
  · have hkeeps := s.state.keeps_update port ack ha now
    exact ⟨h.frame (h.memory.update port ack ha now) (fun k hk => (hkeeps.mem k).mpr hk) rfl rfl,
      .of_keeps hkeeps fun v hv => .inl hv⟩
  · exact hwriter.agreed h

theorem agreed_initial (env : Env) (boot : String) (file : Journal) :
    Agreed env (Sys.initial boot file) where
  memory := memory_initial env
  alone := by simp [Sys.initial]
  entered := by simp [Sys.initial]
  once := by simp [Sys.initial]

/-! ## Runs -/

/-- An earlier step of the run took the key out of all four tables. -/
def Evicted (env : Env) (s₀ : Sys) (as : List Action) (k : String) : Prop :=
  ∃ as₁ a as₂ t t', as = as₁ ++ a :: as₂ ∧ exec (step env) s₀ as₁ = some t ∧
    step env t a = some t' ∧ k ∈ t.state.entries ∧ t'.state.Gone k

/-- No step of call `i` in the run changes the tables. -/
def Untouched (env : Env) (s₀ : Sys) (as : List Action) (i : Nat) : Prop :=
  Meets (step env)
    (fun t a => t.Belongs i a → ∀ t', step env t a = some t' → SameTables t.state t'.state) s₀ as

section Runs

variable {env : Env} {s₀ s s' : Sys} {as : List Action} {a : Action}

theorem Evicted.snoc {k : String} (h : Evicted env s₀ as k) : Evicted env s₀ (as ++ [a]) k := by
  obtain ⟨as₁, b, as₂, t, t', rfl, ht⟩ := h
  exact ⟨as₁, b, as₂ ++ [a], t, t', by simp, ht⟩

/-- Whatever the confirmed list names is in the cache or was evicted. -/
theorem confirms_step (hrun : exec (step env) s₀ as = some s) (hs : step env s a = some s')
    (hturn : Turn env s s')
    (h : ∀ k, s.Confirms k → k ∈ s.state.entries ∨ Evicted env s₀ as k) :
    ∀ k, s'.Confirms k → k ∈ s'.state.entries ∨ Evicted env s₀ (as ++ [a]) k := by
  intro k hk
  have hcached : k ∈ s.state.entries →
      k ∈ s'.state.entries ∨ Evicted env s₀ (as ++ [a]) k := fun hin =>
    (hturn.stays k hin).imp id fun hgone => ⟨as, a, [], s, s', rfl, hrun, hs, hin, hgone⟩
  rcases hturn.origin k hk with hold | hin
  · exact (h k hold).elim hcached fun hevicted => .inr hevicted.snoc
  · exact hcached hin

theorem Untouched.snoc {i : Nat} (h : Untouched env s₀ as i)
    (hrun : exec (step env) s₀ as = some s)
    (hlast : s.Belongs i a → ∀ t, step env s a = some t → SameTables s.state t.state) :
    Untouched env s₀ (as ++ [a]) i := by
  refine meets_append.mpr ⟨h, fun mid hmid => ?_⟩
  obtain rfl := Option.some.inj (hrun.symm.trans hmid)
  exact ⟨hlast, fun _ _ => trivial⟩

theorem Goes.still {i j : Nat} {c : Call} (h : Goes env s s' i) (hc : s.calls[j]? = some c) :
    ∃ d, s'.calls[j]? = some d := by
  obtain ⟨b, pc, state, hp, rfl⟩ := h
  have hlt : j < (s.calls.set i { b with pc := pc }).length := by
    rw [List.length_set]
    exact (List.getElem?_eq_some_iff.mp hc).1
  exact ⟨_, List.getElem?_eq_getElem hlt⟩

theorem Goes.reserved {i j : Nat} {d : Call} (h : Goes env s s' i) (hd : s'.calls[j]? = some d)
    (hopen : d.pc.reserved = false) :
    (∃ c, s.calls[j]? = some c ∧ c.pc.reserved = false) ∧
      (j = i → SameTables s.state s'.state) := by
  obtain ⟨c, pc, state, hp, rfl⟩ := h
  rcases getElem_set_cases hp.get hd with ⟨rfl, rfl⟩ | ⟨hne, hold⟩
  · obtain ⟨hbefore, hsame⟩ := hp.quiet hopen
    exact ⟨⟨c, hp.get, hbefore⟩, fun _ => hsame⟩
  · exact ⟨⟨d, hold, hopen⟩, fun heq => absurd heq hne⟩

/-- A call that has not entered its snapshot, or has not arrived, has not changed the tables. -/
def Innocent (env : Env) (s₀ : Sys) (as : List Action) (s : Sys) : Prop :=
  ∀ i, (∀ c, s.calls[i]? = some c → c.pc.reserved = false) → Untouched env s₀ as i

theorem innocent_step (hagreed : Agreed env s) (hrun : exec (step env) s₀ as = some s)
    (hs : step env s a = some s') (h : Innocent env s₀ as s) :
    Innocent env s₀ (as ++ [a]) s' := by
  intro j hopen
  rcases step_kinds hs with ⟨i, hi, hbelongs⟩ | ⟨c, _, _, rfl⟩ | ⟨port, ack, change, now, rfl, rfl⟩ |
    ⟨hwriter, hnobody⟩
  · have hgoes := step_goes hagreed hi hs
    refine (h j fun c hc => ?_).snoc hrun fun hb t ht => ?_
    · obtain ⟨d, hd⟩ := hgoes.still hc
      obtain ⟨⟨c', hc', hopen'⟩, -⟩ := hgoes.reserved hd (hopen d hd)
      rw [Option.some.inj (hc.symm.trans hc')]
      exact hopen'
    · obtain rfl := Option.some.inj (hs.symm.trans ht)
      obtain ⟨c, pc, state, hp, rfl⟩ := id hgoes
      obtain rfl := hbelongs j hb
      obtain ⟨d, hd⟩ := hgoes.still hp.get
      exact (hgoes.reserved hd (hopen d hd)).2 rfl
  · refine (h j fun d hd => ?_).snoc hrun fun _ t ht => ?_
    · refine hopen d ?_
      exact (List.getElem?_append_left (List.getElem?_eq_some_iff.mp hd).1).trans hd
    · obtain rfl := Option.some.inj (hs.symm.trans ht)
      exact .rfl
  · exact (h j hopen).snoc hrun fun hb => by cases hb
  · rw [hwriter.calls] at hopen
    exact (h j hopen).snoc hrun fun hb => absurd hb (hnobody j)

end Runs

/-- A command that was admitted, and is marked as long as it is in the cache. -/
def Marked (env : Env) (k : String) (s : Sys) : Prop :=
  (∀ b ∈ tombstones (env.sha256 k), b ∈ s.state.seen) ∧
    ∀ v, s.state.entries.lookup k = some v → v.auditIncomplete = true

theorem marked_step {env : Env} {s s' : Sys} {k : String} (hturn : Turn env s s')
    (h : Marked env k s) : Marked env k s' := by
  refine ⟨fun b hb => hturn.seen (h.1 b hb), fun w hw => ?_⟩
  rcases hturn.fresh k (AList.lookup_isSome.mp (Option.isSome_of_eq_some hw)) with hold | hlow
  · obtain ⟨v, hv⟩ := Option.isSome_iff_exists.mp (AList.lookup_isSome.mpr hold)
    exact hturn.marked k v w hv hw (h.2 v hv)
  · obtain ⟨b, hb, hno⟩ := hlow
    exact absurd (h.1 b hb) hno

theorem marked_run {env : Env} {s t : Sys} {bs : List Action} {k : String} (hagreed : Agreed env s)
    (hsource : ∀ a ∈ bs, a.OfSource) (ht : exec (step env) s bs = some t) (h : Marked env k s) :
    Agreed env t ∧ Marked env k t := by
  refine exec_history (fun bs t => (∀ a ∈ bs, a.OfSource) → Agreed env t ∧ Marked env k t)
    (fun _ => ⟨hagreed, h⟩) (fun bs a u u' _ hinv hu hall => ?_) ht hsource
  obtain ⟨hprev, hmarked⟩ := hinv fun b hb => hall b (List.mem_append_left _ hb)
  obtain ⟨hnext, hturn⟩ := agreed_step hprev (hall a (by simp)) hu
  exact ⟨hnext, marked_step hturn hmarked⟩

theorem reached {env : Env} {boot : String} {file : Journal} {as : List Action} {s : Sys}
    (hsource : ∀ a ∈ as, a.OfSource)
    (hs : exec (step env) (Sys.initial boot file) as = some s) :
    Agreed env s ∧
      (∀ k, s.Confirms k → k ∈ s.state.entries ∨ Evicted env (Sys.initial boot file) as k) ∧
      Innocent env (Sys.initial boot file) as s := by
  refine exec_history (fun as s => (∀ a ∈ as, a.OfSource) → Agreed env s ∧
    (∀ k, s.Confirms k → k ∈ s.state.entries ∨ Evicted env (Sys.initial boot file) as k) ∧
    Innocent env (Sys.initial boot file) as s) (fun _ => ⟨agreed_initial env boot file, ?_, ?_⟩)
    (fun as a t t' hrun hinv ht hall => ?_) hs hsource
  · rintro k (hk | ⟨v, hv, -⟩)
    · simp [Sys.initial, State.initial] at hk
    · cases hv
  · exact fun _ _ => trivial
  · obtain ⟨hagreed, hconfirms, hinnocent⟩ := hinv fun b hb => hall b (List.mem_append_left _ hb)
    obtain ⟨hnext, hturn⟩ := agreed_step hagreed (hall a (by simp)) ht
    exact ⟨hnext, confirms_step hrun ht hturn hconfirms, innocent_step hagreed hrun ht hinnocent⟩

/-- What holds of the tables after the run `as` from `s₀` to `s`. -/
structure JournalMemory (env : Env) (s₀ : Sys) (as : List Action) (s : Sys) : Prop where
  dirty : ∀ k ∈ s.state.dirty, k ∈ s.state.entries
  ack : ∀ p k, s.state.ack.lookup p = some k → k ∈ s.state.entries
  persisted : ∀ k ∈ s.state.persisted, k ∈ s.state.entries ∨ Evicted env s₀ as k
  buffered : ∀ k v, s.state.dirty.lookup k = some v → s.state.entries.lookup k = some v
  distinct : ∀ k k' v v', s.state.entries.lookup k = some v → s.state.entries.lookup k' = some v' →
    v.revision = v'.revision → k = k'
  numbered : ∀ k v, s.state.entries.lookup k = some v → v.revision ≤ s.state.revision
  capped : s.state.entries.keys.length ≤ cacheLimit
  attempts : ∀ k v, s.state.entries.lookup k = some v → v.attempts.length ≤ 256
  sticky : ∀ bs t k v w, (∀ a ∈ bs, a.OfSource) → exec (step env) s bs = some t →
    s.state.entries.lookup k = some v → v.auditIncomplete = true →
    t.state.entries.lookup k = some w → w.auditIncomplete = true
  rejected : ∀ (i : Nat) (c : Call) (e : String), s.calls[i]? = some c → c.pc = .done (.error e) →
    Untouched env s₀ as i

/-- However the calls of one boot interleave with updates and with the writer: the tables agree,
an audit mark stays, and no step of a call that returned an error has changed a table. -/
theorem journal_memory (env : Env) (boot : String) (file : Journal) (as : List Action) (s : Sys)
    (hsource : ∀ a ∈ as, a.OfSource)
    (hs : exec (step env) (Sys.initial boot file) as = some s) :
    JournalMemory env (Sys.initial boot file) as s := by
  obtain ⟨hagreed, hconfirms, hinnocent⟩ := reached hsource hs
  have hmemory := hagreed.memory
  refine ⟨hmemory.dirty, hmemory.acked, fun k hk => hconfirms k (.inl hk), hmemory.buffered,
    hmemory.distinct, hmemory.numbered, hmemory.capped, hmemory.attempts, ?_, ?_⟩
  · intro bs t k v w hbs ht hv hmark hw
    have hmem : k ∈ s.state.entries := AList.lookup_isSome.mp (Option.isSome_of_eq_some hv)
    have hmarked : Marked env k s := by
      refine ⟨hmemory.raised k hmem, fun x hx => ?_⟩
      rw [← Option.some.inj (hv.symm.trans hx)]
      exact hmark
    exact (marked_run hagreed hbs ht hmarked).2.2 w hw
  · intro i c e hc hpc
    refine hinnocent i fun d hd => ?_
    rw [← Option.some.inj (hc.symm.trans hd), hpc]
    rfl

theorem journal_memory_beginTwice : ∃ s,
    exec (step sampleEnv) (Sys.initial "boot-1" Journal.empty) beginTwice = some s ∧
      JournalMemory sampleEnv (Sys.initial "boot-1" Journal.empty) beginTwice s := by
  have hruns : (exec (step sampleEnv) (Sys.initial "boot-1" Journal.empty) beginTwice).isSome := by
    decide +kernel
  obtain ⟨s, hs⟩ := Option.isSome_iff_exists.mp hruns
  refine ⟨s, hs, journal_memory sampleEnv "boot-1" Journal.empty beginTwice s ?_ hs⟩
  simp [beginTwice, Action.OfSource]

end RcdServer.Tracking
