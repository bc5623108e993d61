import RcdServer.Commands.Calls

/-!
# Fenced sources

The invariant under which a fence keeps the commands of its source out: while the source is fenced,
none of its commands is queued, being accepted or registered and in flight. Accepting a command
keeps it, because the fence is checked under the configuration lock.
-/
namespace RcdServer.Commands

open Lib Routes Routes.Reservations Process

variable {D : Type}

namespace Runtime

/-! ## The invariant -/

/-- No command of the source is in a queue or can be sent. -/
structure Closed (r : Runtime D) (source : String) : Prop where
  queued : ∀ id c, r.reserved.queuedByID.lookup id = some c → c.sourceID ≠ source
  inFlight : ∀ c ∈ r.inFlight, (r.commands.dispatch.lookup c.id).isSome → c.sourceID ≠ source
  accepting : ∀ c call, r.config = some (.accepting c call) → c.sourceID ≠ source

/-- The table has no command of the source, executing or queued. -/
structure Idle (r : Runtime D) (source : String) : Prop where
  executing : ∀ key c, r.reserved.pendingByKey.lookup key = some c → c.sourceID ≠ source
  queued : ∀ id c, r.reserved.queuedByID.lookup id = some c → c.sourceID ≠ source

/-- A command that is being accepted. -/
structure Accepting (r : Runtime D) (c : PendingCommand) (call : Bool) : Prop where
  issued : c.id ∈ r.commands.routes.issued
  unregistered : r.commands.dispatch.lookup c.id = none
  inFlight : ∀ c' ∈ r.inFlight, c'.id ≠ c.id
  unqueued : call = true → r.reserved.queuedByID.lookup c.id = none
  identified : call = true → ∀ key c', r.reserved.pendingByKey.lookup key = some c' →
    c'.id = c.id → c'.sourceID = c.sourceID

/-- The reservation of a port is no command. -/
structure Apart (r : Runtime D) (id : String) : Prop where
  issued : id ∈ r.commands.routes.issued
  unqueued : r.reserved.queuedByID.lookup id = none
  inFlight : ∀ c ∈ r.inFlight, c.id ≠ id
  accepting : ∀ c call, r.config = some (.accepting c call) → c.id ≠ id

structure Unstarted (r : Runtime D) : Prop where
  inFlight : r.inFlight = []
  config : r.config = none
  reservations : r.reservations = []
  queued : ∀ id, r.reserved.queuedByID.lookup id = none

structure Inv (r : Runtime D) : Prop where
  commands : Commands.Inv r.commands
  registered : Registered r.commands
  issued : ∀ c ∈ r.inFlight, c.id ∈ r.commands.routes.issued
  executing : ∀ c ∈ r.inFlight, (r.commands.dispatch.lookup c.id).isSome →
    ∃ key c', r.reserved.pendingByKey.lookup key = some c' ∧ c'.id = c.id ∧
      c'.sourceID = c.sourceID
  accepting : ∀ c call, r.config = some (.accepting c call) → r.Accepting c call
  reservations : ∀ id ∈ r.reservations, r.Apart id
  fenced : ∀ source, r.fenced source → r.Closed source
  admitting : ∀ source request, r.config = some (.admitting source request) → r.Idle source
  unstarted : r.started = false → r.Unstarted
  sent : ∀ e ∈ r.sent, e.2 = ""

theorem Inv.of_unstarted {r : Runtime D} (hcommands : Commands.Inv r.commands)
    (hregistered : Registered r.commands) (h : r.Unstarted) (hsent : ∀ e ∈ r.sent, e.2 = "") :
    r.Inv where
  commands := hcommands
  registered := hregistered
  issued := by simp [h.inFlight]
  executing := by simp [h.inFlight]
  accepting := by simp [h.config]
  reservations := by simp [h.reservations]
  fenced := fun source _ => ⟨by simp [h.queued], by simp [h.inFlight], by simp [h.config]⟩
  admitting := by simp [h.config]
  unstarted := fun _ => h
  sent := hsent

theorem inv_initial (config : Configuration) : (initial config : Runtime D).Inv :=
  .of_unstarted (Commands.inv_initial config) (registered_initial config)
    ⟨rfl, rfl, rfl, by simp [initial, reserved, Sys.commands, Sys.initial, Routes.Sys.initial,
      RouteTable.new, Reservations.empty]⟩
    (by simp [initial])

/-! ## Steps that accept nothing -/

/-- Nothing is accepted or fenced, and commands only leave. -/
structure Quiet (r r' : Runtime D) : Prop where
  kept : Kept (fun id => (∃ c ∈ r.inFlight, c.id = id) ∨
    ∃ c call, r'.config = some (.accepting c call) ∧ c.id = id) r.commands r'.commands
  inFlight : ∀ c ∈ r'.inFlight, c ∈ r.inFlight
  config : r'.config = r.config ∨ r'.config = none ∨
    r'.started = true ∧ (r'.config = some .starting ∨
      ∃ source request, r'.config = some (.creating source request))
  fences : ∀ source, r'.fenced source → r.fenced source
  reservations : r'.reservations = r.reservations
  started : r'.started = false → r.started = false
  sent : r'.sent = r.sent

section Steps

variable {r r' : Runtime D} {a : RuntimeAction D}

theorem Quiet.accepting (h : Quiet r r') {c : PendingCommand} {call : Bool}
    (hc : r'.config = some (.accepting c call)) : r.config = some (.accepting c call) := by
  rcases h.config with hsame | hnone | ⟨-, hstarting | ⟨source, request, hcreating⟩⟩
  · exact hsame ▸ hc
  · simp [hnone] at hc
  · simp [hstarting] at hc
  · simp [hcreating] at hc

theorem Quiet.admitting (h : Quiet r r') {source request : String}
    (hc : r'.config = some (.admitting source request)) :
    r.config = some (.admitting source request) := by
  rcases h.config with hsame | hnone | ⟨-, hstarting | ⟨source, request, hcreating⟩⟩
  · exact hsame ▸ hc
  · simp [hnone] at hc
  · simp [hstarting] at hc
  · simp [hcreating] at hc

theorem Inv.quiet (hinv : r.Inv) (hcommands : Commands.Inv r'.commands)
    (hregistered : Registered r'.commands) (h : Quiet r r') : r'.Inv where
  commands := hcommands
  registered := hregistered
  issued := fun c hc => h.kept.issued c.id (hinv.issued c (h.inFlight c hc))
  executing := by
    intro c hc hregistered
    have hmem := h.inFlight c hc
    obtain ⟨key, c', hc', hid, hsource⟩ :=
      hinv.executing c hmem (h.kept.registered c.id (.inl ⟨c, hmem, rfl⟩) hregistered)
    exact ⟨key, c', h.kept.still key c' (.inl ⟨c, hmem, hid.symm⟩) (hid ▸ hregistered) hc', hid,
      hsource⟩
  accepting := by
    intro c call hc
    obtain ⟨hissued, hunregistered, hapart, hunqueued, hidentified⟩ :=
      hinv.accepting c call (h.accepting hc)
    refine ⟨h.kept.issued c.id hissued, ?_, fun c' hc' => hapart c' (h.inFlight c' hc'), ?_, ?_⟩
    · cases hm : r'.commands.dispatch.lookup c.id with
      | none => rfl
      | some m =>
        have hbefore := h.kept.registered c.id (.inr ⟨c, call, hc, rfl⟩) (by simp [hm])
        simp [hunregistered] at hbefore
    · intro hcall
      cases hq : r'.reserved.queuedByID.lookup c.id with
      | none => rfl
      | some c' => exact absurd ((hunqueued hcall).symm.trans (h.kept.queued c.id c' hq)) (by simp)
    · intro hcall key c' hc'
      exact hidentified hcall key c' (h.kept.executing key c' hc')
  reservations := by
    intro id hid
    obtain ⟨hissued, hunqueued, hapart, haccepting⟩ := hinv.reservations id (h.reservations ▸ hid)
    refine ⟨h.kept.issued id hissued, ?_, fun c hc => hapart c (h.inFlight c hc),
      fun c call hc => haccepting c call (h.accepting hc)⟩
    cases hq : r'.reserved.queuedByID.lookup id with
    | none => rfl
    | some c' => exact absurd (hunqueued.symm.trans (h.kept.queued id c' hq)) (by simp)
  fenced := by
    intro source hfenced
    have hclosed := hinv.fenced source (h.fences source hfenced)
    exact ⟨fun id c hc => hclosed.queued id c (h.kept.queued id c hc),
      fun c hc hregistered => hclosed.inFlight c (h.inFlight c hc)
        (h.kept.registered c.id (.inl ⟨c, h.inFlight c hc, rfl⟩) hregistered),
      fun c call hc => hclosed.accepting c call (h.accepting hc)⟩
  admitting := by
    intro source request hc
    have hidle := hinv.admitting source request (h.admitting hc)
    exact ⟨fun key c hc => hidle.executing key c (h.kept.executing key c hc),
      fun id c hc => hidle.queued id c (h.kept.queued id c hc)⟩
  unstarted := by
    intro hstarted
    have hun := hinv.unstarted (h.started hstarted)
    refine ⟨?_, ?_, h.reservations.trans hun.reservations, ?_⟩
    · have hempty := h.inFlight
      rw [hun.inFlight] at hempty
      exact List.eq_nil_iff_forall_not_mem.mpr fun c hc => by simpa using hempty c hc
    · rcases h.config with hsame | hnone | ⟨hon, -⟩
      · exact hsame.trans hun.config
      · exact hnone
      · rw [hstarted] at hon
        cases hon
    · intro id
      cases hq : r'.reserved.queuedByID.lookup id with
      | none => rfl
      | some c' => exact absurd ((hun.queued id).symm.trans (h.kept.queued id c' hq)) (by simp)
  sent := h.sent ▸ hinv.sent

/-- A quiet call, then a change outside the execution service. -/
theorem Inv.call (hinv : r.Inv) {b : Action D} (hb : Commands.quiet b = true) {r₁ : Runtime D}
    (h : r.call b = some r₁) : r₁.Inv ∧ Quiet r r₁ := by
  obtain ⟨s', hstep, rfl⟩ := Option.map_eq_some_iff.mp h
  have hquiet : Quiet r { r with commands := s' } :=
    ⟨step_kept hinv.commands hb hstep _, fun _ hc => hc, .inl rfl, fun _ hf => hf, rfl, fun hs => hs, rfl⟩
  exact ⟨hinv.quiet (Commands.step_inv hinv.commands hstep)
    (step_registered hinv.commands hinv.registered hstep) hquiet, hquiet⟩

/-- Only the maintenance changes, without a new fence. -/
theorem Inv.maintained (hinv : r.Inv) {m : Maintenance}
    (hm : ∀ source, m.fence source ≠ "" → r.maintenance.fence source ≠ "") :
    Inv { r with maintenance := m } :=
  hinv.quiet hinv.commands hinv.registered
    ⟨.refl _ _, fun _ hc => hc, .inl rfl, hm, rfl, fun hs => hs, rfl⟩

/-! ## Accepting a command -/

theorem accept_eq_some {source : String} {b : Routes.Action}
    {out : Except RouteError (RouteTable × PendingCommand)}
    {accepted : Runtime D → PendingCommand → Runtime D}
    (h : r.accept source b out accepted = some r') :
    r' = r ∨ (r.config = none ∧ r.started = true ∧ r.maintenance.fence source = "" ∧
      ∃ t c s', out = .ok (t, c) ∧ Commands.step r.commands (.table b) = some s' ∧
        r' = accepted { r with commands := s' } c) := by
  unfold accept at h
  split at h
  · cases h
  rename_i hfree
  split at h
  · exact .inl (Option.some.inj h).symm
  rename_i hcheck
  cases out with
  | error e => exact .inl (Option.some.inj h).symm
  | ok out =>
    obtain ⟨t, c⟩ := out
    obtain ⟨r₁, hr₁, rfl⟩ := Option.map_eq_some_iff.mp h
    obtain ⟨s', hs', rfl⟩ := Option.map_eq_some_iff.mp hr₁
    simp only [Bool.or_eq_true, Bool.not_eq_true', not_or, Bool.not_eq_true,
      Option.isSome_eq_false_iff, Option.isNone_iff_eq_none, Bool.not_eq_false] at hfree
    refine .inr ⟨hfree.1, hfree.2, ?_, t, c, s', rfl, hs', rfl⟩
    cases hbusy : r.maintenance.check source true with
    | error e => simp [checkProcessMaintenance, hbusy, Except.isOk, Except.toBool] at hcheck
    | ok _ => exact (Maintenance.check_eq_ok hbusy).1

/-- A new command, placed in the table by `add`. -/
structure Accepts (s s' : Sys D) (c : PendingCommand)
    (add : Reservations → PendingCommand → Reservations) : Prop where
  new : c.id ∉ s.routes.issued
  issued : s'.routes.issued = c.id :: s.routes.issued
  dispatch : s'.dispatch = s.dispatch
  commands : s'.commands = add s.commands c

theorem accepts_write {s s' : Sys D} {sessionID groupID port nodeID request id : String}
    {now : Time} {t : RouteTable} {c : PendingCommand}
    (hout : s.routes.table.enqueueWrite sessionID groupID port nodeID request id now = .ok (t, c))
    (h : Commands.step s (.table (.enqueueWrite sessionID groupID port nodeID request id now)) =
      some s') : Accepts s s' c addQueued := by
  obtain ⟨c', hid, -, -, -, -, -, heq⟩ := RouteTable.enqueueWrite_eq_ok hout
  obtain ⟨rfl, rfl⟩ := Prod.mk.inj heq
  obtain ⟨routes, hroutes, rfl⟩ := table_step h
  simp only [Routes.step] at hroutes
  split at hroutes
  · cases hroutes
  simp only [Routes.Sys.locked, hout] at hroutes
  split at hroutes
  · cases hroutes
  · rename_i hnew
    cases hroutes
    exact ⟨hid ▸ hnew, by rw [hid], rfl, rfl⟩

theorem accepts_begun {s s' : Sys D} {sessionID groupID port kind nodeID request id : String}
    {now : Time} {t : RouteTable} {c : PendingCommand}
    (hout : s.routes.table.beginCommand sessionID groupID port kind nodeID request id now =
      .ok (t, c))
    (h : Commands.step s (.table (.beginCommand sessionID groupID port kind nodeID request id now)) =
      some s') :
    Accepts s s' c addExecuting ∧ s.commands.pendingByKey.lookup c.key = none := by
  obtain ⟨c', hid, -, -, -, hfree, -, heq⟩ := RouteTable.beginCommand_eq_ok hout
  obtain ⟨rfl, rfl⟩ := Prod.mk.inj heq
  obtain ⟨routes, hroutes, rfl⟩ := table_step h
  simp only [Routes.step] at hroutes
  split at hroutes
  · cases hroutes
  simp only [Routes.Sys.locked, hout] at hroutes
  split at hroutes
  · cases hroutes
  · rename_i hnew
    cases hroutes
    exact ⟨⟨hid ▸ hnew, by rw [hid], rfl, rfl⟩, hfree⟩

/-- A command goes to the source that was checked. -/
theorem selected_source {sessionID groupID source : String} {c : PendingCommand}
    (hs : r.selected sessionID groupID = some source)
    (hc : r.routeTable.Selected sessionID groupID c) : c.sourceID = source := by
  obtain ⟨session, route, hsession, hroute, hsource⟩ := hc
  rw [selected, hsession] at hs
  simp only [Option.bind_some, hroute, Option.map_some, Option.some.injEq] at hs
  exact hsource.trans hs

/-- What is not queued under a new command's identifier. -/
theorem Inv.new_apart (hinv : r.Inv) {s' : Sys D} {c : PendingCommand}
    {add : Reservations → PendingCommand → Reservations} (hacc : Accepts r.commands s' c add) :
    r.commands.dispatch.lookup c.id = none ∧ (∀ c' ∈ r.inFlight, c'.id ≠ c.id) ∧
      (∀ id ∈ r.reservations, c.id ≠ id) ∧ r.reserved.queuedByID.lookup c.id = none ∧
      ∀ key c', r.reserved.pendingByKey.lookup key = some c' → c'.id ≠ c.id := by
  have hsound := hinv.commands.routes.sound.1
  refine ⟨?_, ?_, ?_, hsound.not_queued (hinv.commands.routes.fresh hacc.new), ?_⟩
  · cases hm : r.commands.dispatch.lookup c.id with
    | none => rfl
    | some m => exact absurd (hinv.registered.issued c.id (by simp [hm])) hacc.new
  · intro c' hc' heq
    exact hacc.new (heq ▸ hinv.issued c' hc')
  · intro id hid heq
    exact hacc.new (heq ▸ (hinv.reservations id hid).issued)
  · intro key c' hc' heq
    exact hacc.new (heq ▸ hinv.commands.routes.issued c'.id _ (hsound.executing key c' hc').2.1)

theorem Inv.enqueued (hinv : r.Inv) (hstarted : r.started = true) (hfree : r.config = none)
    {s' : Sys D} {c : PendingCommand} {b : Action D} (hstep : Commands.step r.commands b = some s')
    (hacc : Accepts r.commands s' c addQueued) (hsource : r.maintenance.fence c.sourceID = "") :
    Inv { r with commands := s' } := by
  obtain ⟨-, -, hreservations, -, -⟩ := hinv.new_apart hacc
  have hqueued : ∀ id, s'.commands.queuedByID.lookup id =
      if id = c.id then some c else r.commands.commands.queuedByID.lookup id := by
    intro id
    rw [hacc.commands]
    exact Map.lookup_insert_eq
  have hexecuting : s'.commands.pendingByKey = r.commands.commands.pendingByKey := by
    rw [hacc.commands]
    rfl
  refine ⟨Commands.step_inv hinv.commands hstep,
    step_registered hinv.commands hinv.registered hstep, ?_, ?_, by simp [hfree], ?_, ?_,
    by simp [hfree], by simp [hstarted], hinv.sent⟩
  · intro c' hc'
    show c'.id ∈ s'.routes.issued
    rw [hacc.issued]
    exact List.mem_cons_of_mem _ (hinv.issued c' hc')
  · intro c' hc' hregistered
    show ∃ key c'', s'.commands.pendingByKey.lookup key = some c'' ∧ _
    rw [hexecuting]
    exact hinv.executing c' hc' (hacc.dispatch ▸ hregistered)
  · intro id hid
    obtain ⟨hissued, hunqueued, hapart, -⟩ := hinv.reservations id hid
    refine ⟨?_, ?_, hapart, by simp [hfree]⟩
    · show id ∈ s'.routes.issued
      rw [hacc.issued]
      exact List.mem_cons_of_mem _ hissued
    · show s'.commands.queuedByID.lookup id = none
      rw [hqueued, if_neg (Ne.symm (hreservations id hid))]
      exact hunqueued
  · intro source hfenced
    have hclosed := hinv.fenced source hfenced
    refine ⟨?_, fun c' hc' hregistered => hclosed.inFlight c' hc' (hacc.dispatch ▸ hregistered),
      by simp [hfree]⟩
    intro id c' hc'
    have hlookup : s'.commands.queuedByID.lookup id = some c' := hc'
    rw [hqueued] at hlookup
    split at hlookup
    · cases hlookup
      exact fun heq => hfenced (heq ▸ hsource)
    · exact hclosed.queued id c' hlookup

/-- A command that starts to execute at once is not in flight yet. -/
theorem Inv.begun (hinv : r.Inv) (hstarted : r.started = true) (hfree : r.config = none)
    {s' : Sys D} {c : PendingCommand} {b : Action D} (hstep : Commands.step r.commands b = some s')
    (hacc : Accepts r.commands s' c addExecuting)
    (hport : r.commands.commands.pendingByKey.lookup c.key = none) :
    Inv { r with commands := s' } := by
  have hqueued : s'.commands.queuedByID = r.commands.commands.queuedByID := by
    rw [hacc.commands]
    rfl
  have hexecuting : ∀ key, s'.commands.pendingByKey.lookup key =
      if key = c.key then some c else r.commands.commands.pendingByKey.lookup key := by
    intro key
    rw [hacc.commands]
    exact Map.lookup_insert_eq
  refine ⟨Commands.step_inv hinv.commands hstep,
    step_registered hinv.commands hinv.registered hstep, ?_, ?_, by simp [hfree], ?_, ?_,
    by simp [hfree], by simp [hstarted], hinv.sent⟩
  · intro c' hc'
    show c'.id ∈ s'.routes.issued
    rw [hacc.issued]
    exact List.mem_cons_of_mem _ (hinv.issued c' hc')
  · intro c' hc' hregistered
    obtain ⟨key, c'', hc'', hid⟩ := hinv.executing c' hc' (hacc.dispatch ▸ hregistered)
    refine ⟨key, c'', ?_, hid⟩
    show s'.commands.pendingByKey.lookup key = some c''
    have hne : key ≠ c.key := by
      rintro rfl
      exact absurd (hport.symm.trans hc'') (by simp)
    rw [hexecuting, if_neg hne]
    exact hc''
  · intro id hid
    obtain ⟨hissued, hunqueued, hapart, -⟩ := hinv.reservations id hid
    refine ⟨?_, ?_, hapart, by simp [hfree]⟩
    · show id ∈ s'.routes.issued
      rw [hacc.issued]
      exact List.mem_cons_of_mem _ hissued
    · show s'.commands.queuedByID.lookup id = none
      rw [hqueued]
      exact hunqueued
  · intro source hfenced
    have hclosed := hinv.fenced source hfenced
    refine ⟨?_, fun c' hc' hregistered => hclosed.inFlight c' hc' (hacc.dispatch ▸ hregistered),
      by simp [hfree]⟩
    intro id c' hc'
    have hlookup : s'.commands.queuedByID.lookup id = some c' := hc'
    rw [hqueued] at hlookup
    exact hclosed.queued id c' hlookup

/-- The lock is held for an accepted command. -/
theorem Inv.accept (hinv : r.Inv) (hstarted : r.started = true) {c : PendingCommand} {call : Bool}
    (hacc : r.Accepting c call) (hsource : r.maintenance.fence c.sourceID = "")
    (hreservations : ∀ id ∈ r.reservations, c.id ≠ id) :
    Inv { r with config := some (.accepting c call) } := by
  refine ⟨hinv.commands, hinv.registered, hinv.issued, hinv.executing, ?_, ?_, ?_, ?_, ?_, hinv.sent⟩
  · intro c' call' hc'
    cases hc'
    exact ⟨hacc.issued, hacc.unregistered, hacc.inFlight, hacc.unqueued, hacc.identified⟩
  · intro id hid
    obtain ⟨hissued, hunqueued, hapart, -⟩ := hinv.reservations id hid
    refine ⟨hissued, hunqueued, hapart, ?_⟩
    intro c' call' hc'
    cases hc'
    exact hreservations id hid
  · intro source hfenced
    have hclosed := hinv.fenced source hfenced
    refine ⟨hclosed.queued, hclosed.inFlight, ?_⟩
    intro c' call' hc'
    cases hc'
    exact fun heq => hfenced (heq ▸ hsource)
  · intro source request hc'
    cases hc'
  · exact fun hun => absurd (hstarted.symm.trans hun) (by simp)

theorem Inv.reserve (hinv : r.Inv) (hstarted : r.started = true) {id : String}
    (hapart : r.Apart id) : Inv { r with reservations := id :: r.reservations } := by
  refine ⟨hinv.commands, hinv.registered, hinv.issued, hinv.executing, ?_, ?_, ?_, ?_, ?_, hinv.sent⟩
  · intro c call hc
    obtain ⟨hissued, hunregistered, hinFlight, hunqueued, hidentified⟩ := hinv.accepting c call hc
    exact ⟨hissued, hunregistered, hinFlight, hunqueued, hidentified⟩
  · intro id' hid'
    have hold : r.Apart id' := by
      rcases List.mem_cons.mp hid' with rfl | hid'
      · exact hapart
      · exact hinv.reservations id' hid'
    exact ⟨hold.issued, hold.unqueued, hold.inFlight, hold.accepting⟩
  · intro source hfenced
    have hclosed := hinv.fenced source hfenced
    exact ⟨hclosed.queued, hclosed.inFlight, hclosed.accepting⟩
  · intro source request hc
    have hidle := hinv.admitting source request hc
    exact ⟨hidle.executing, hidle.queued⟩
  · exact fun hun => absurd (hstarted.symm.trans hun) (by simp)

theorem writeCommand_inv (hinv : r.Inv) {sessionID groupID port nodeID request id : String}
    {now : Time} (h : r.writeCommand sessionID groupID port nodeID request id now = some r') :
    r'.Inv := by
  unfold writeCommand at h
  cases hs : r.selected sessionID groupID with
  | none =>
    simp only [hs, Option.some.injEq] at h
    exact h ▸ hinv
  | some source =>
    simp only [hs] at h
    obtain rfl | ⟨hfree, hstarted, hfence, t, c, s', hout, hstep, rfl⟩ := accept_eq_some h
    · exact hinv
    obtain ⟨c', -, hselected, -, -, -, -, heq⟩ := RouteTable.enqueueWrite_eq_ok hout
    obtain ⟨-, rfl⟩ := Prod.mk.inj heq
    have hsource : r.maintenance.fence c.sourceID = "" :=
      selected_source hs hselected ▸ hfence
    have hacc := accepts_write hout hstep
    obtain ⟨hunregistered, hinFlight, hreservations, -, -⟩ := hinv.new_apart hacc
    refine (hinv.enqueued hstarted hfree hstep hacc hsource).accept hstarted
      ⟨?_, ?_, hinFlight, by simp, by simp⟩ hsource hreservations
    · show c.id ∈ s'.routes.issued
      rw [hacc.issued]
      exact List.mem_cons_self
    · show s'.dispatch.lookup c.id = none
      rw [hacc.dispatch]
      exact hunregistered

theorem callCommand_inv (hinv : r.Inv) {sessionID groupID port nodeID request id : String}
    {now : Time} (h : r.callCommand sessionID groupID port nodeID request id now = some r') :
    r'.Inv := by
  unfold callCommand at h
  cases hs : r.selected sessionID groupID with
  | none =>
    simp only [hs, Option.some.injEq] at h
    exact h ▸ hinv
  | some source =>
    simp only [hs] at h
    obtain rfl | ⟨hfree, hstarted, hfence, t, c, s', hout, hstep, rfl⟩ := accept_eq_some h
    · exact hinv
    obtain ⟨c', -, hselected, -, -, -, -, heq⟩ := RouteTable.beginCommand_eq_ok hout
    obtain ⟨-, rfl⟩ := Prod.mk.inj heq
    have hsource : r.maintenance.fence c.sourceID = "" :=
      selected_source hs hselected ▸ hfence
    obtain ⟨hacc, hport⟩ := accepts_begun hout hstep
    obtain ⟨hunregistered, hinFlight, hreservations, hunqueued, hunknown⟩ := hinv.new_apart hacc
    refine (hinv.begun hstarted hfree hstep hacc hport).accept hstarted
      ⟨?_, ?_, hinFlight, ?_, ?_⟩ hsource hreservations
    · show c.id ∈ s'.routes.issued
      rw [hacc.issued]
      exact List.mem_cons_self
    · show s'.dispatch.lookup c.id = none
      rw [hacc.dispatch]
      exact hunregistered
    · intro _
      show s'.commands.queuedByID.lookup c.id = none
      rw [hacc.commands]
      exact hunqueued
    · intro _ key c' hc' hid
      have hlookup : s'.commands.pendingByKey.lookup key = some c' := hc'
      rw [hacc.commands] at hlookup
      rcases lookup_addExecuting hlookup with ⟨-, rfl⟩ | ⟨-, hold⟩
      · rfl
      · exact absurd hid (hunknown key c' hold)

theorem reserve_inv (hinv : r.Inv) {checked sessionID groupID port kind nodeID id : String}
    {now : Time} (h : r.reserve checked sessionID groupID port kind nodeID id now = some r') :
    r'.Inv := by
  obtain rfl | ⟨hfree, hstarted, -, t, c, s', hout, hstep, rfl⟩ := accept_eq_some h
  · exact hinv
  obtain ⟨hacc, hport⟩ := accepts_begun hout hstep
  obtain ⟨-, hinFlight, -, hunqueued, -⟩ := hinv.new_apart hacc
  refine (hinv.begun hstarted hfree hstep hacc hport).reserve hstarted
    ⟨?_, ?_, hinFlight, by simp [hfree]⟩
  · show c.id ∈ s'.routes.issued
    rw [hacc.issued]
    exact List.mem_cons_self
  · show s'.commands.queuedByID.lookup c.id = none
    rw [hacc.commands]
    exact hunqueued

end Steps

end Runtime

end RcdServer.Commands
