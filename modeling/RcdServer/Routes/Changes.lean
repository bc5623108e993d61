import RcdServer.Routes.Indices
import RcdServer.Routes.Sessions

/-!
# The reservations in every run

Every step removes commands, begins, restores or accepts one, or activates the head of a queue.
The indices, the order of activation and the bounds on a port follow from these five cases.
-/
namespace RcdServer.Routes

open Lib Lib.Run Reservations

open RouteTable (Placed)

/-! ## One step -/

/-- The writes of one port, from a log. -/
def portOf (key : String) (log : List (String × String)) : List String :=
  (log.filter fun e => e.1 == key).map (·.2)

/-- What a step does to the reservations and the logs. -/
inductive Change (s : Sys) (a : Action) (s' : Sys) : Prop
  | removed (hmoves : Removals s.table.commands s'.table.commands) (hissued : s'.issued = s.issued)
      (haccepted : s'.accepted = s.accepted) (hactivated : s'.activated = s.activated)
  | begun (c : PendingCommand) (hunlocked : s.committing = none) (hnew : c.id ∉ s.issued) (hplaced : Placed s.table.config c)
      (hfree : s.table.commands.pendingByKey.lookup c.key = none)
      (hqueue : s.table.commands.queue c.key = [])
      (hs' : s' = { s with
        table := { s.table with commands := s.table.commands.addExecuting c }
        issued := c.id :: s.issued })
  | restored (c : PendingCommand)
      (hrestore : ∃ c₀ now, a = .restorePending c₀ now ∧ c.id = c₀.id ∧ c.kind = c₀.kind ∧
        c.key = c₀.key)
      (hunlocked : s.committing = none)
      (hnew : s.table.commands.pendingByID.lookup c.id = none)
      (hplaced : Placed s.table.config c)
      (hfree : s.table.commands.pendingByKey.lookup c.key = none)
      (hs' : s' = { s with
        table := { s.table with commands := s.table.commands.addExecuting c }
        issued := c.id :: s.issued })
  | enqueued (c : PendingCommand) (hunlocked : s.committing = none) (hnew : c.id ∉ s.issued) (hplaced : Placed s.table.config c)
      (hkind : c.kind = "Write")
      (hactive : ∀ active, s.table.commands.pendingByKey.lookup c.key = some active →
        active.kind ≠ commandKindPassiveReset)
      (hroom : (s.table.commands.queue c.key).length +
        (if (s.table.commands.pendingByKey.lookup c.key).isSome then 1 else 0) <
          commandQueueCapacity)
      (hs' : s' = { s with
        table := { s.table with commands := s.table.commands.addQueued c }
        issued := c.id :: s.issued
        accepted := s.accepted ++ [(c.key, c.id)] })
  | activated (c : PendingCommand) (r : Reservations) (ha : a = .activateQueued c.id)
      (hmove : Activation s.table.commands c r)
      (hs' : s' = { s with
        table := { s.table with commands := r }
        activated := s.activated ++ [(c.key, c.id)] })

section Steps

variable {s s' : Sys} {a : Action}

theorem Change.same (htable : s'.table.commands = s.table.commands) (hissued : s'.issued = s.issued)
    (haccepted : s'.accepted = s.accepted) (hactivated : s'.activated = s.activated) :
    Change s a s' :=
  .removed (htable ▸ .refl) hissued haccepted hactivated

theorem step_change (hsound : s.table.commands.Sound) (h : step s a = some s') :
    Change s a s' := by
  cases step_call h with
  | refused => exact .same rfl rfl rfl rfl
  | openSession _ hout => exact .same (by rw [(RouteTable.openSession_eq_ok hout).1]) rfl rfl rfl
  | touchSession hout =>
    obtain ⟨session, -, rfl⟩ := RouteTable.touchSession_eq_ok hout
    exact .same rfl rfl rfl rfl
  | closeSession => exact .same rfl rfl rfl rfl
  | selectRoute _ hout =>
    obtain ⟨-, session, old, seen, -, -, -, -, heq⟩ := RouteTable.selectRoute_eq_ok hout
    exact .same (by rw [heq]; rfl) rfl rfl rfl
  | setAutomatic _ hout =>
    obtain ⟨-, session, old, seen, -, -, -, -, heq⟩ := RouteTable.setAutomatic_eq_ok hout
    exact .same (by rw [heq]; rfl) rfl rfl rfl
  | setDefault _ hout =>
    obtain ⟨-, group, hv, -, rfl⟩ := RouteTable.setDefault_eq_ok hout
    exact .same rfl rfl rfl rfl
  | beginCommand hunlocked hnew hout =>
    obtain ⟨c, rfl, -, -, hplaced, hfree, hqueue, rfl⟩ := RouteTable.beginCommand_eq_ok hout
    exact .begun c hunlocked hnew hplaced hfree hqueue rfl
  | @restorePending c now t hunlocked hout =>
    obtain ⟨c', hid, hkey, -, hkind, hplaced, hnew, hfree, rfl⟩ :=
      RouteTable.restorePending_eq_ok hout
    exact .restored c' ⟨c, now, rfl, hid, hkind, hkey⟩ hunlocked hnew hplaced hfree (by rw [hid])
  | enqueueWrite hunlocked hnew hout =>
    obtain ⟨c, rfl, -, hkind, hplaced, hactive, hroom, rfl⟩ := RouteTable.enqueueWrite_eq_ok hout
    exact .enqueued c hunlocked hnew hplaced hkind hactive hroom rfl
  | @activateQueued id out hout =>
    obtain ⟨c, rfl, hc, hmove⟩ := activateQueued_eq_ok hsound.1 hout
    have hkey : out.2.key = c.key := by rw [hc]; rfl
    exact .activated c out.1 rfl hmove (by rw [hkey])
  | finishCommand hout => exact .removed (finishCommand_removals hsound.1 hout) rfl rfl rfl
  | finishCommandBySourcePort hout =>
    exact .removed (finishCommandBySourcePort_removals hout) rfl rfl rfl
  | commitCommandFinish _ hout =>
    exact .removed (RouteTable.commitCommandFinish_removals hsound hout) rfl rfl rfl
  | sweepExpired => exact .removed (sweepExpired_removals hsound.1 _ _) rfl rfl rfl
  | applyConfiguration => exact .same rfl rfl rfl rfl
  | prepareConfiguration => exact .same rfl rfl rfl rfl
  | abandonConfiguration => exact .same rfl rfl rfl rfl
  | publishConfiguration => exact .same rfl rfl rfl rfl

/-! ## The invariant -/

structure Inv (s : Sys) : Prop where
  sound : s.table.commands.Sound
  issued : ∀ id key, s.table.commands.pendingByID.lookup id = some key → id ∈ s.issued
  accepted : ∀ e ∈ s.accepted, e.2 ∈ s.issued
  nodup : (s.accepted.map (·.2)).Nodup
  /-- First the activated writes of a port, then its queue, in the order of acceptance. -/
  ordered : ∀ key, (portOf key s.activated ++ s.table.commands.queue key).Sublist
    (portOf key s.accepted)
  writes : ∀ id c, s.table.commands.queuedByID.lookup id = some c → c.kind = "Write"

theorem inv_initial (config : Configuration) : Inv (Sys.initial config) where
  sound := ⟨indexed_empty, counted_empty⟩
  issued := by simp [Sys.initial, RouteTable.new, Reservations.empty]
  accepted := by simp [Sys.initial]
  nodup := by simp [Sys.initial]
  ordered := by simp [Sys.initial, RouteTable.new, Reservations.empty, portOf, queue]
  writes := by simp [Sys.initial, RouteTable.new, Reservations.empty]

theorem queue_addExecuting (r : Reservations) (c : PendingCommand) (key : String) :
    (r.addExecuting c).queue key = r.queue key := rfl

theorem queue_addQueued (r : Reservations) (c : PendingCommand) (key : String) :
    (r.addQueued c).queue key = if key = c.key then r.queue key ++ [c.id] else r.queue key := by
  show ((r.queuedByPort.insert c.key (r.queue c.key ++ [c.id])).lookup key).getD [] = _
  rw [Map.lookup_insert_eq]
  split
  · rename_i hkey
    rw [hkey]
    rfl
  · rfl

theorem portOf_append (key : String) (log : List (String × String)) (e : String × String) :
    portOf key (log ++ [e]) = portOf key log ++ if e.1 = key then [e.2] else [] := by
  unfold portOf
  rw [List.filter_append, List.map_append]
  congr 1
  by_cases hkey : e.1 = key
  · simp [hkey]
  · simp [hkey]

/-- An identifier that is reserved after removals was reserved before. -/
theorem removals_identified {r r' : Reservations} (h : Removals r r') (hr : r.Sound)
    {id key : String} (hid : r'.pendingByID.lookup id = some key) :
    r.pendingByID.lookup id = some key := by
  rcases (h.sound hr).1.identified id key hid with ⟨c, hc, rfl⟩ | ⟨c, hc, rfl⟩
  · exact (hr.1.executing key c (h.executing hc)).2.1
  · exact (hr.1.queued id c (h.queued hc)).2.1

theorem Inv.fresh (hinv : Inv s) {id : String} (hnew : id ∉ s.issued) :
    s.table.commands.pendingByID.lookup id = none := by
  cases hid : s.table.commands.pendingByID.lookup id with
  | none => rfl
  | some key => exact absurd (hinv.issued id key hid) hnew

/-- A command that starts to execute without having been queued. -/
theorem Inv.addExecuting (hinv : Inv s) {c : PendingCommand}
    (hnew : s.table.commands.pendingByID.lookup c.id = none)
    (hfree : s.table.commands.pendingByKey.lookup c.key = none) :
    Inv { s with
      table := { s.table with commands := s.table.commands.addExecuting c }
      issued := c.id :: s.issued } where
  sound := ⟨hinv.sound.1.addExecuting hnew hfree, hinv.sound.2.addExecuting hfree⟩
  issued := by
    intro id key hid
    rw [show (s.table.commands.addExecuting c).pendingByID.lookup id =
      if id = c.id then some c.key else s.table.commands.pendingByID.lookup id
      from Map.lookup_insert_eq] at hid
    split at hid
    · rename_i heq
      exact heq ▸ List.mem_cons_self
    · exact List.mem_cons_of_mem _ (hinv.issued id key hid)
  accepted := fun e he => List.mem_cons_of_mem _ (hinv.accepted e he)
  nodup := hinv.nodup
  ordered := hinv.ordered
  writes := hinv.writes

theorem step_inv (hinv : Inv s) (h : step s a = some s') : Inv s' := by
  cases step_change hinv.sound h with
  | removed hmoves hissued haccepted hactivated =>
    refine ⟨hmoves.sound hinv.sound, ?_, ?_, ?_, ?_, ?_⟩
    · intro id key hid
      rw [hissued]
      exact hinv.issued id key (removals_identified hmoves hinv.sound hid)
    · rw [haccepted, hissued]
      exact hinv.accepted
    · rw [haccepted]
      exact hinv.nodup
    · intro key
      rw [haccepted, hactivated]
      exact ((List.Sublist.refl _).append (hmoves.queue_sublist hinv.sound key)).trans
        (hinv.ordered key)
    · intro id c hc
      exact hinv.writes id c (hmoves.queued hc)
  | begun c _ hnew _ hfree _ hs' => exact hs' ▸ hinv.addExecuting (hinv.fresh hnew) hfree
  | restored c _ _ hnew _ hfree hs' => exact hs' ▸ hinv.addExecuting hnew hfree
  | enqueued c _ hnew _ hkind _ _ hs' =>
    subst hs'
    have hid := hinv.fresh hnew
    refine ⟨⟨hinv.sound.1.addQueued hid, hinv.sound.2.addQueued (hinv.sound.1.not_queued hid)⟩,
      ?_, ?_, ?_, ?_, ?_⟩
    · intro id key hid
      rw [show (s.table.commands.addQueued c).pendingByID.lookup id =
        if id = c.id then some c.key else s.table.commands.pendingByID.lookup id
        from Map.lookup_insert_eq] at hid
      split at hid
      · rename_i heq
        exact heq ▸ List.mem_cons_self
      · exact List.mem_cons_of_mem _ (hinv.issued id key hid)
    · intro e he
      rcases List.mem_append.mp he with he | he
      · exact List.mem_cons_of_mem _ (hinv.accepted e he)
      · obtain rfl : e = (c.key, c.id) := List.mem_singleton.mp he
        exact List.mem_cons_self
    · rw [List.map_append, List.nodup_append]
      refine ⟨hinv.nodup, List.nodup_singleton _, ?_⟩
      intro id hmem id' hid' heq
      obtain ⟨e, he, rfl⟩ := List.mem_map.mp hmem
      have hlast : id' = c.id := by simpa using hid'
      exact hnew (hlast ▸ heq ▸ hinv.accepted e he)
    · intro key
      rw [portOf_append, queue_addQueued]
      by_cases hkey : key = c.key
      · subst hkey
        rw [if_pos rfl, if_pos rfl, ← List.append_assoc]
        exact (hinv.ordered c.key).append (List.Sublist.refl _)
      · rw [if_neg hkey, if_neg (Ne.symm hkey), List.append_nil]
        exact hinv.ordered key
    · intro id c' hc'
      rw [show (s.table.commands.addQueued c).queuedByID.lookup id =
        if id = c.id then some c else s.table.commands.queuedByID.lookup id
        from Map.lookup_insert_eq] at hc'
      split at hc'
      · cases hc'
        exact hkind
      · exact hinv.writes id c' hc'
  | activated c r _ hmove hs' =>
    subst hs'
    have hsound := hmove.sound hinv.sound
    refine ⟨hsound, ?_, hinv.accepted, hinv.nodup, ?_, ?_⟩
    · intro id key hid
      rcases hsound.1.identified id key hid with ⟨c', hc', rfl⟩ | ⟨c', hc', -⟩
      · rcases hmove.executing hc' with ⟨-, rfl⟩ | ⟨-, hc'⟩
        · exact hinv.issued _ _ (hinv.sound.1.queued _ _ hmove.queued).2.1
        · exact hinv.issued _ _ (hinv.sound.1.executing _ _ hc').2.1
      · exact hinv.issued _ _ (hinv.sound.1.queued _ _ (hmove.still_queued hc')).2.1
    · intro key
      obtain ⟨tail, htail⟩ := hmove.head
      rw [portOf_append, hmove.queue hinv.sound.1]
      by_cases hkey : key = c.key
      · subst hkey
        have hordered := hinv.ordered c.key
        rw [htail] at hordered
        rw [if_pos rfl, if_pos rfl, htail, List.tail_cons, List.append_assoc]
        exact hordered
      · rw [if_neg (Ne.symm hkey), if_neg hkey, List.append_nil]
        exact hinv.ordered key
    · intro id c' hc'
      exact hinv.writes id c' (hmove.still_queued hc')

/-! ## Passive resets and the capacity of a port -/

/-- No port holds an executing passive reset together with queued commands. -/
def Unmixed (s : Sys) : Prop :=
  ∀ key c, s.table.commands.pendingByKey.lookup key = some c →
    c.kind = commandKindPassiveReset → s.table.commands.queue key = []

/-- Persisted commands are restored: a passive reset is not put on a port with a queue. -/
def RestoresCommands (s : Sys) : Action → Prop
  | .restorePending c _ =>
    c.kind = commandKindPassiveReset → s.table.commands.queue c.key = []
  | _ => True

def occupancy (r : Reservations) (key : String) : Nat :=
  (r.queue key).length + if (r.pendingByKey.lookup key).isSome then 1 else 0

def Bounded (s : Sys) : Prop := ∀ key, occupancy s.table.commands key ≤ commandQueueCapacity

def NoRestore : Action → Prop
  | .restorePending _ _ => False
  | _ => True

theorem lookup_addExecuting {r : Reservations} {c c' : PendingCommand} {key : String}
    (h : (r.addExecuting c).pendingByKey.lookup key = some c') :
    (key = c.key ∧ c' = c) ∨ (key ≠ c.key ∧ r.pendingByKey.lookup key = some c') := by
  rw [show (r.addExecuting c).pendingByKey.lookup key =
    if key = c.key then some c else r.pendingByKey.lookup key from Map.lookup_insert_eq] at h
  split at h
  · rename_i hkey
    cases h
    exact .inl ⟨hkey, rfl⟩
  · exact .inr ⟨‹_›, h⟩

theorem step_unmixed (hinv : Inv s) (hun : Unmixed s) (hok : RestoresCommands s a)
    (h : step s a = some s') : Unmixed s' := by
  intro key c' hc' hpassive
  cases step_change hinv.sound h with
  | removed hmoves _ _ _ =>
    have hbefore := hun key c' (hmoves.executing hc') hpassive
    exact List.sublist_nil.mp (hbefore ▸ hmoves.queue_sublist hinv.sound key)
  | begun c _ _ _ _ hqueue hs' =>
    subst hs'
    rcases lookup_addExecuting hc' with ⟨rfl, -⟩ | ⟨-, hc'⟩
    · exact hqueue
    · exact hun key c' hc' hpassive
  | restored c hrestore _ _ _ _ hs' =>
    subst hs'
    obtain ⟨c₀, now, rfl, -, hkind, hkey⟩ := hrestore
    rcases lookup_addExecuting hc' with ⟨rfl, rfl⟩ | ⟨-, hc'⟩
    · rw [hkey]
      exact hok (hkind ▸ hpassive)
    · exact hun key c' hc' hpassive
  | enqueued c _ _ _ _ hactive _ hs' =>
    subst hs'
    have hne : key ≠ c.key := by
      rintro rfl
      exact hactive c' hc' hpassive
    show (s.table.commands.addQueued c).queue key = []
    rw [queue_addQueued, if_neg hne]
    exact hun key c' hc' hpassive
  | activated c r _ hmove hs' =>
    subst hs'
    rcases hmove.executing hc' with ⟨-, rfl⟩ | ⟨hne, hc'⟩
    · have hwrite := hinv.writes _ _ hmove.queued
      rw [show c.kind = commandKindPassiveReset from hpassive] at hwrite
      exact absurd hwrite (by decide)
    · rw [hmove.queue hinv.sound.1, if_neg hne]
      exact hun key c' hc' hpassive

/-- Removals free places of a port. -/
theorem removals_occupancy {r r' : Reservations} (h : Removals r r') (hr : r.Sound) (key : String) :
    occupancy r' key ≤ occupancy r key := by
  have hqueue := (h.queue_sublist hr key).length_le
  have hexecuting : (r'.pendingByKey.lookup key).isSome → (r.pendingByKey.lookup key).isSome := by
    intro hsome
    obtain ⟨c, hc⟩ := Option.isSome_iff_exists.mp hsome
    exact Option.isSome_iff_exists.mpr ⟨c, h.executing hc⟩
  unfold occupancy
  split
  · rename_i hsome
    rw [if_pos (hexecuting hsome)]
    omega
  · omega

theorem step_bounded (hinv : Inv s) (hb : Bounded s) (hok : NoRestore a)
    (h : step s a = some s') : Bounded s' := by
  intro key
  cases step_change hinv.sound h with
  | removed hmoves _ _ _ =>
    exact Nat.le_trans (removals_occupancy hmoves hinv.sound key) (hb key)
  | begun c _ _ _ _ hqueue hs' =>
    subst hs'
    by_cases hkey : key = c.key
    · subst hkey
      have hempty : (s.table.commands.addExecuting c).queue c.key = [] := hqueue
      simp only [occupancy, hempty, List.length_nil, commandQueueCapacity]
      split <;> omega
    · have hlookup : (s.table.commands.addExecuting c).pendingByKey.lookup key =
          s.table.commands.pendingByKey.lookup key := AList.lookup_insert_ne hkey
      simp only [occupancy, hlookup, queue_addExecuting]
      exact hb key
  | restored c hrestore _ _ _ _ _ =>
    obtain ⟨c₀, now, rfl, -⟩ := hrestore
    cases hok
  | enqueued c _ _ _ _ _ hroom hs' =>
    subst hs'
    have hlookup : (s.table.commands.addQueued c).pendingByKey.lookup key =
        s.table.commands.pendingByKey.lookup key := rfl
    by_cases hkey : key = c.key
    · subst hkey
      simp only [occupancy, hlookup, queue_addQueued, if_true, List.length_append,
        List.length_singleton]
      omega
    · simp only [occupancy, hlookup, queue_addQueued, if_neg hkey]
      exact hb key
  | activated c r _ hmove hs' =>
    subst hs'
    have hbefore := hb key
    simp only [occupancy, hmove.queue hinv.sound.1] at hbefore ⊢
    by_cases hkey : key = c.key
    · subst hkey
      -- The command that leaves the queue is the one that executes.
      obtain ⟨tail, htail⟩ := hmove.head
      simp only [hmove.free, htail, if_true, List.tail_cons, List.length_cons,
        Option.isSome_none, Bool.false_eq_true, if_false] at hbefore ⊢
      split <;> omega
    · have hlookup : r.pendingByKey.lookup key = s.table.commands.pendingByKey.lookup key := by
        rw [hmove.moved]
        exact AList.lookup_insert_ne hkey
      simp only [hlookup, if_neg hkey]
      exact hbefore

/-! ## Runs -/

theorem run_inv {config : Configuration} {as : List Action}
    (h : exec step (Sys.initial config) as = some s) : Inv s :=
  exec_invariant Inv (fun _ _ _ hinv hstep => step_inv hinv hstep) (inv_initial config) h

theorem run_unmixed {config : Configuration} {as : List Action}
    (hok : Meets step RestoresCommands (Sys.initial config) as)
    (h : exec step (Sys.initial config) as = some s) : Unmixed s := by
  refine (meets_invariant RestoresCommands (fun s => Inv s ∧ Unmixed s) ?_ ?_ hok h).2
  · intro s a s' hs hok hstep
    exact ⟨step_inv hs.1 hstep, step_unmixed hs.1 hs.2 hok hstep⟩
  · exact ⟨inv_initial config, by
      intro key c hc
      simp [Sys.initial, RouteTable.new, Reservations.empty] at hc⟩

theorem run_bounded {config : Configuration} {as : List Action} (hok : ∀ a ∈ as, NoRestore a)
    (h : exec step (Sys.initial config) as = some s) : Bounded s := by
  refine (meets_invariant (fun _ => NoRestore) (fun s => Inv s ∧ Bounded s) ?_ ?_
    (meets_of_forall hok) h).2
  · intro s a s' hs hok hstep
    exact ⟨step_inv hs.1 hstep, step_bounded hs.1 hs.2 hok hstep⟩
  · exact ⟨inv_initial config, by
      intro key
      simp [Sys.initial, RouteTable.new, Reservations.empty, occupancy, queue]⟩

end Steps

/-- In every run the indices agree, with the counters of the groups; the writes of a port are
activated in the order of their acceptance, each as the head of its queue on a free port. No port
holds a passive reset together with a queue, unless a restore put it there, and without restores
no port holds more than the capacity. -/
theorem indices_agree {config : Configuration} {as : List Action} {s : Sys}
    (h : exec step (Sys.initial config) as = some s) :
    s.table.commands.Indexed ∧ s.table.commands.Counted ∧
    (s.accepted.map (·.2)).Nodup ∧
    (∀ key, (portOf key s.activated ++ s.table.commands.queue key).Sublist
      (portOf key s.accepted)) ∧
    (∀ id out, s.table.commands.activateQueued id = .ok out →
      s.table.commands.pendingByKey.lookup out.2.key = none ∧
        (s.table.commands.queue out.2.key).head? = some id) ∧
    (Meets step RestoresCommands (Sys.initial config) as → Unmixed s) ∧
    ((∀ a ∈ as, NoRestore a) → Bounded s) := by
  have hinv := run_inv h
  refine ⟨hinv.sound.1, hinv.sound.2, hinv.nodup, hinv.ordered, ?_, fun hok => run_unmixed hok h,
    fun hok => run_bounded hok h⟩
  intro id out hout
  obtain ⟨c, rfl, hc, hmove⟩ := activateQueued_eq_ok hinv.sound.1 hout
  have hkey : out.2.key = c.key := by
    rw [hc]
    rfl
  obtain ⟨tail, htail⟩ := hmove.head
  rw [hkey, htail]
  exact ⟨hmove.free, rfl⟩

/-- One group with one source. -/
def oneSource : Configuration :=
  .ofLists [⟨"G", "S", 1⟩] [⟨"S", "G", [], [], true, .ready⟩] (by decide +kernel)

def twoWrites : List Action :=
  [.openSession "session" ∅ 1, .enqueueWrite "session" "G" "COM1" "node" "1" "a" 2,
    .enqueueWrite "session" "G" "COM1" "node" "2" "b" 3, .activateQueued "a"]

theorem indices_agree_twoWrites :
    ∃ s, exec step (Sys.initial oneSource) twoWrites = some s ∧
      s.table.commands.pendingCount "G" = 2 ∧ s.table.commands.Indexed ∧ Bounded s := by
  have hrun : (exec step (Sys.initial oneSource) twoWrites).any
      (fun s => decide (s.table.commands.pendingCount "G" = 2)) = true := by decide +kernel
  obtain ⟨s, hs, hcount⟩ := (Option.any_eq_true _ _).mp hrun
  have hagree := indices_agree hs
  refine ⟨s, hs, by simpa using hcount, hagree.1, hagree.2.2.2.2.2.2 ?_⟩
  simp [twoWrites, NoRestore]

/-- A restored passive reset does not look at the queue of its port. -/
theorem restored_passive_reset_mixed :
    ∃ s, exec step (Sys.initial oneSource)
        [.openSession "session" ∅ 1, .enqueueWrite "session" "G" "COM1" "node" "1" "a" 2,
          .restorePending
            { id := "b", sessionID := "session", groupID := "G", sourceID := "S", port := "COM1"
              kind := commandKindPassiveReset, nodeID := "node", request := "", state := .waiting
              statusCode := statusBadWaitingForResponse, startedAt := 1 } 3] = some s ∧
      ∃ c, s.table.commands.pendingByKey.lookup (portKey "S" "COM1") = some c ∧
        c.kind = commandKindPassiveReset ∧
        s.table.commands.queue (portKey "S" "COM1") = ["a"] := by
  have hrun : (exec step (Sys.initial oneSource)
      [.openSession "session" ∅ 1, .enqueueWrite "session" "G" "COM1" "node" "1" "a" 2,
        .restorePending
          { id := "b", sessionID := "session", groupID := "G", sourceID := "S", port := "COM1"
            kind := commandKindPassiveReset, nodeID := "node", request := "", state := .waiting
            statusCode := statusBadWaitingForResponse, startedAt := 1 } 3]).any
      (fun s => (s.table.commands.pendingByKey.lookup (portKey "S" "COM1")).any
          (fun c => c.kind == commandKindPassiveReset) &&
        s.table.commands.queue (portKey "S" "COM1") == ["a"]) = true := by decide +kernel
  obtain ⟨s, hs, hmixed⟩ := (Option.any_eq_true _ _).mp hrun
  obtain ⟨hpassive, hqueue⟩ := Bool.and_eq_true_iff.mp hmixed
  obtain ⟨c, hc, hkind⟩ := (Option.any_eq_true _ _).mp hpassive
  exact ⟨s, hs, c, hc, by simpa using hkind, by simpa using hqueue⟩

end RcdServer.Routes
