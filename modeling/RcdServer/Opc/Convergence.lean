import RcdServer.Opc.Pictures

/-!
# Convergence of the value nodes

Once the task has consumed its receiver, it has applied the newest status of every device: what it
received last, or what a resynchronisation found in the cache. Points then show these statuses.
The outputs of formulas do so if no resynchronisation rebuilds the context while a device that a
formula reads has not reported yet, and if the start does not find some devices and miss others.
-/
namespace RcdServer.Opc.Nodes

open Calc Calc.Rust
open Lib.Run
open Serial (DeviceRuntimeState)

variable {ι F64 F32 : Type} [FloatOps F64 F32] [DecidableEq ι]

/-! ## What the nodes should show -/

/-- The initial synchronisation followed by one incremental update for every status. -/
def expected (site : Site ι F64 F32) (nodes₀ : String → DataValue F32 F64)
    (initial latest : ι → Option (DeviceStatus ι)) (order : List ι) : Picture F64 F32 :=
  (order.filterMap latest).foldl (Picture.apply site) (initialSync site initial nodes₀)

/-- The newest statuses are those of the cache; of a device whose worker is between the cache and
the broadcast it may be the one before. -/
def Newest (s : State ι F64 F32) (latest : ι → Option (DeviceStatus ι)) : Prop :=
  ∀ d, latest d = s.cache d ∨ (s.publishing d = true ∧ latest d = s.published d)

def Consumed (s : State ι F64 F32) : Prop := s.phase = .running ∧ s.next = s.sent.length

/-- The nodes that hold the values of device points show the newest statuses. -/
def PointsConverged (site : Site ι F64 F32) (nodes₀ : String → DataValue F32 F64)
    (s : State ι F64 F32) (latest : ι → Option (DeviceStatus ι)) : Prop :=
  ∀ order, order.Perm site.devices → ∀ d, ∀ kks ∈ site.keys d,
    s.picture.nodes kks = (expected site nodes₀ s.initial latest order).nodes kks

def Converged (site : Site ι F64 F32) (nodes₀ : String → DataValue F32 F64) (s : State ι F64 F32)
    (latest : ι → Option (DeviceStatus ι)) : Prop :=
  ∀ order, order.Perm site.devices →
    s.picture.nodes = (expected site nodes₀ s.initial latest order).nodes

/-- The start finds no device in the cache or every device, or every formula has valid inputs. -/
def StartOk (site : Site ι F64 F32) (cache : ι → Option (DeviceStatus ι)) : Prop :=
  (∀ d, cache d = none) ∨ (∀ d, (cache d).isSome = true) ∨
    ∀ r ∈ (fullContext site cache).runWithQuality site, r.2.2 = true

/-- Every device that a formula reads has reported. -/
def ResyncOk (site : Site ι F64 F32) (cache : ι → Option (DeviceStatus ι)) : Prop :=
  ∀ d, cache d = none → ∀ kks ∈ site.keys d, ¬ site.Reads kks

def SnapshotOk (site : Site ι F64 F32) (s : State ι F64 F32) : Action ι → Prop
  | .snapshot =>
    (s.phase = .discarded true → StartOk site s.cache) ∧
      (s.phase = .discarded false → ResyncOk site s.cache)
  | _ => True

/-! ## Statuses applied one after the other -/

def overlay (applied : ι → Option (DeviceStatus ι)) (statuses : List (DeviceStatus ι)) :
    ι → Option (DeviceStatus ι) :=
  statuses.foldl (fun applied st => Function.update applied st.device (some st)) applied

theorem Filed.overlay {applied : ι → Option (DeviceStatus ι)} (h : Filed applied)
    (statuses : List (DeviceStatus ι)) : Filed (Nodes.overlay applied statuses) := by
  induction statuses generalizing applied with
  | nil => exact h
  | cons st statuses ih => exact ih (h.update st)

theorem overlay_notMem {applied : ι → Option (DeviceStatus ι)} {statuses : List (DeviceStatus ι)}
    {d : ι} (h : ∀ st ∈ statuses, st.device ≠ d) : overlay applied statuses d = applied d := by
  induction statuses generalizing applied with
  | nil => rfl
  | cons st statuses ih =>
    change overlay (Function.update applied st.device (some st)) statuses d = applied d
    rw [ih fun other hother => h other (List.mem_cons_of_mem st hother),
      Function.update_of_ne (h st List.mem_cons_self).symm]

theorem overlay_mem {applied : ι → Option (DeviceStatus ι)} {statuses : List (DeviceStatus ι)}
    (hsingle : Single statuses) {st : DeviceStatus ι} (hst : st ∈ statuses) :
    overlay applied statuses st.device = some st := by
  induction statuses generalizing applied with
  | nil => cases hst
  | cons head statuses ih =>
    obtain ⟨hhead, hrest⟩ := List.nodup_cons.mp hsingle
    change overlay (Function.update applied head.device (some head)) statuses st.device = some st
    rcases List.mem_cons.mp hst with rfl | hst
    · rw [overlay_notMem, Function.update_self]
      intro other hother hdevice
      exact hhead (List.mem_map.mpr ⟨other, hother, hdevice⟩)
    · exact ih hrest hst

omit [FloatOps F64 F32] in
/-- In any order the newest statuses take the place of those of the start. -/
theorem overlay_latest {site : Site ι F64 F32} {initial latest : ι → Option (DeviceStatus ι)}
    {order : List ι} (hfiled : Filed latest) (hkept : ∀ d, latest d = none → initial d = none)
    (horder : order.Perm site.devices) : overlay initial (order.filterMap latest) = latest := by
  have hnodup : order.Nodup := horder.nodup_iff.mpr site.nodup
  funext d
  cases hd : latest d with
  | none =>
    rw [overlay_notMem, hkept d hd]
    intro st hst hdevice
    have hcache := ((mem_filed hfiled).mp hst).2
    rw [hdevice, hd] at hcache
    cases hcache
  | some st =>
    obtain rfl := hfiled d st hd
    have hmem : st ∈ order.filterMap latest :=
      (mem_filed hfiled).mpr ⟨horder.mem_iff.mpr (site.complete st.device), hd⟩
    exact overlay_mem (single_filed hfiled hnodup) hmem

theorem Points.fold {site : Site ι F64 F32} {nodes₀ : String → DataValue F32 F64}
    {applied : ι → Option (DeviceStatus ι)} {p : Picture F64 F32} (statuses : List (DeviceStatus ι))
    (h : Points site nodes₀ applied p.nodes) :
    Points site nodes₀ (overlay applied statuses) (statuses.foldl (Picture.apply site) p).nodes := by
  induction statuses generalizing applied p with
  | nil => exact h
  | cons st statuses ih => exact ih h.apply

theorem Calculated.fold {site : Site ι F64 F32} {nodes₀ : String → DataValue F32 F64}
    {applied : ι → Option (DeviceStatus ι)} {unavailable : StatusCode} {p : Picture F64 F32}
    (statuses : List (DeviceStatus ι)) (hfiled : Filed applied)
    (h : Calculated site nodes₀ applied unavailable p) :
    Calculated site nodes₀ (overlay applied statuses)
      (if statuses.isEmpty then unavailable else .badNoCommunication)
      (statuses.foldl (Picture.apply site) p) := by
  induction statuses generalizing applied unavailable p with
  | nil => exact h
  | cons st statuses ih =>
    have hrest := ih (hfiled.update st) (h.apply hfiled)
    rwa [ite_self] at hrest

/-- The code of the outputs once these statuses are applied. -/
def outputCode (site : Site ι F64 F32) (initial applied : ι → Option (DeviceStatus ι)) : StatusCode :=
  if site.devices.all fun d => (applied d).isNone then calcUnavailable site initial
  else .badNoCommunication

omit [FloatOps F64 F32] [DecidableEq ι] in
theorem outputCode_some {site : Site ι F64 F32} {initial applied : ι → Option (DeviceStatus ι)}
    {d : ι} (h : (applied d).isSome = true) : outputCode site initial applied = .badNoCommunication := by
  refine if_neg fun hall => ?_
  have hnone := List.all_eq_true.mp hall d (site.complete d)
  rw [Option.isNone_iff_eq_none.mp hnone] at h
  cases h

omit [FloatOps F64 F32] [DecidableEq ι] in
theorem outputCode_eq {site : Site ι F64 F32} {initial applied : ι → Option (DeviceStatus ι)}
    (hfiled : Filed applied) {order : List ι} (horder : order.Perm site.devices) :
    outputCode site initial applied =
      if (order.filterMap applied).isEmpty then calcUnavailable site initial
      else .badNoCommunication := by
  cases hempty : (order.filterMap applied).isEmpty with
  | true =>
    refine if_pos (List.all_eq_true.mpr fun d _ => ?_)
    cases hd : applied d with
    | none => rfl
    | some st =>
      obtain rfl := hfiled d st hd
      have hmem : st ∈ order.filterMap applied :=
        (mem_filed hfiled).mpr ⟨horder.mem_iff.mpr (site.complete st.device), hd⟩
      rw [List.isEmpty_iff.mp hempty] at hmem
      cases hmem
  | false =>
    obtain ⟨st, hst⟩ := List.exists_mem_of_ne_nil _ (List.isEmpty_eq_false_iff.mp hempty)
    have hcache := ((mem_filed hfiled).mp hst).2
    exact outputCode_some (by rw [hcache]; rfl)

theorem expected_points {site : Site ι F64 F32} {nodes₀ : String → DataValue F32 F64}
    {initial latest : ι → Option (DeviceStatus ι)} {order : List ι} (hinitial : Filed initial)
    (hfiled : Filed latest) (hkept : ∀ d, latest d = none → initial d = none)
    (horder : order.Perm site.devices) :
    Points site nodes₀ latest (expected site nodes₀ initial latest order).nodes := by
  have hstart : Points site nodes₀ initial (initialSync site initial nodes₀).nodes :=
    .initial hinitial
  have hfold := hstart.fold (order.filterMap latest)
  rwa [overlay_latest hfiled hkept horder] at hfold

theorem expected_calculated {site : Site ι F64 F32} {nodes₀ : String → DataValue F32 F64}
    {initial latest : ι → Option (DeviceStatus ι)} {order : List ι} (hinitial : Filed initial)
    (hfiled : Filed latest) (hkept : ∀ d, latest d = none → initial d = none)
    (horder : order.Perm site.devices) :
    Calculated site nodes₀ latest (outputCode site initial latest)
      (expected site nodes₀ initial latest order) := by
  have hstart : Calculated site nodes₀ initial (calcUnavailable site initial)
      (initialSync site initial nodes₀) := .initial initial
  have hfold := hstart.fold (order.filterMap latest) hinitial
  rwa [overlay_latest hfiled hkept horder, ← outputCode_eq hfiled horder] at hfold

/-! ## The memory of a worker -/

/-- What `should_broadcast` compares with is the status. -/
def Remembers (runtime : DeviceRuntimeState) (st : DeviceStatus ι) : Prop :=
  runtime.lastData = st.data ∧ runtime.lastComStatus = some st.comStatus ∧
    runtime.lastDeviceStatus = some st.deviceStatus

def Memory (runtime : DeviceRuntimeState) : Option (DeviceStatus ι) → Prop
  | none => runtime.lastComStatus = none
  | some st => Remembers runtime st

omit [DecidableEq ι] in
/-- Only a status equal to the one remembered is held back, and afterwards it is remembered. -/
theorem shouldBroadcast_memory (runtime : DeviceRuntimeState) (st : DeviceStatus ι) :
    Remembers (runtime.shouldBroadcast st.data st.comStatus st.deviceStatus).2 st ∧
      ((runtime.shouldBroadcast st.data st.comStatus st.deviceStatus).1 = false →
        Remembers runtime st) := by
  unfold DeviceRuntimeState.shouldBroadcast
  by_cases hsame : st.data = runtime.lastData ∧
      (runtime.lastComStatus != some st.comStatus ||
        runtime.lastDeviceStatus != some st.deviceStatus) = false
  · have hold : Remembers runtime st := by
      obtain ⟨hdata, hflags⟩ := hsame
      simp only [Bool.or_eq_false_iff, bne_eq_false_iff_eq] at hflags
      exact ⟨hdata.symm, hflags.1, hflags.2⟩
    simp only [if_pos hsame]
    split_ifs with hcount
    · exact ⟨hold, fun hsend => by cases hsend⟩
    · exact ⟨hold, fun _ => hold⟩
  · simp only [if_neg hsame]
    exact ⟨⟨rfl, rfl, rfl⟩, fun hsend => by cases hsend⟩

omit [DecidableEq ι] in
theorem Memory.eq {runtime : DeviceRuntimeState} {last : Option (DeviceStatus ι)}
    {st : DeviceStatus ι} (hlast : Memory runtime last) (hst : Remembers runtime st)
    (hdevice : ∀ old, last = some old → old.device = st.device) : last = some st := by
  cases last with
  | none =>
    have hnone : runtime.lastComStatus = none := hlast
    rw [hst.2.1] at hnone
    cases hnone
  | some old =>
    obtain ⟨hdata, hcom, hdev⟩ := hlast
    obtain ⟨hdata', hcom', hdev'⟩ := hst
    have hd := hdevice old rfl
    cases old
    cases st
    simp_all

/-! ## The channel -/

/-- The newest status of a device that the channel was given. -/
def lastSent (sent : List (DeviceStatus ι)) (d : ι) : Option (DeviceStatus ι) :=
  (sent.filter fun st => st.device = d).getLast?

theorem lastSent_snoc (sent : List (DeviceStatus ι)) (st : DeviceStatus ι) (d : ι) :
    lastSent (sent ++ [st]) d = if st.device = d then some st else lastSent sent d := by
  unfold lastSent
  rw [List.filter_append]
  split_ifs with hd
  · simp [hd]
  · simp [hd]

theorem lastSent_device {sent : List (DeviceStatus ι)} {d : ι} {st : DeviceStatus ι}
    (h : lastSent sent d = some st) : st.device = d := by
  have hmem := List.mem_filter.mp (List.mem_of_getLast? h)
  exact of_decide_eq_true hmem.2

/-- The status under the cursor is the newest of its device if no other of it follows. -/
theorem lastSent_of_last {sent : List (DeviceStatus ι)} {next : Nat} {st : DeviceStatus ι}
    (hst : sent[next]? = some st) (hlater : ∀ m ∈ sent.drop (next + 1), m.device ≠ st.device) :
    lastSent sent st.device = some st := by
  obtain ⟨hlt, hget⟩ := List.getElem?_eq_some_iff.mp hst
  have hsplit : sent = sent.take next ++ st :: sent.drop (next + 1) := by
    rw [← hget, List.getElem_cons_drop, List.take_append_drop]
  have hnone : (sent.drop (next + 1)).filter (fun m => m.device = st.device) = [] := by
    refine List.filter_eq_nil_iff.mpr fun m hm => ?_
    simpa using hlater m hm
  unfold lastSent
  rw [hsplit, List.filter_append, List.filter_cons_of_pos (by simp), hnone]
  exact List.getLast?_concat

/-! ## The invariant -/

structure Workers (s : State ι F64 F32) : Prop where
  filed : Filed s.cache
  memory : ∀ d, Memory (s.runtime d) (s.published d)
  settled : ∀ d, s.publishing d = false → s.cache d = s.published d
  channel : ∀ d, s.published d = lastSent s.sent d
  carried : ∀ m ∈ s.sent, (s.cache m.device).isSome = true
  bound : s.next ≤ s.sent.length

/-- `applied` are the statuses that the nodes show; `strict` is whether the snapshots were as
`SnapshotOk` says. -/
structure Task (site : Site ι F64 F32) (nodes₀ : String → DataValue F32 F64) (strict : Prop)
    (s : State ι F64 F32) (applied : ι → Option (DeviceStatus ι)) : Prop where
  filed : Filed applied
  filedInitial : Filed s.initial
  kept : ∀ d, applied d = none → s.initial d = none
  known : ∀ d, s.cache d = none → applied d = none
  fresh : s.phase = .running → ∀ d, (∀ m ∈ s.sent.drop s.next, m.device ≠ d) →
    applied d = s.published d ∨ applied d = s.cache d
  points : Points site nodes₀ applied s.picture.nodes
  calculated : strict →
    Calculated site nodes₀ applied (outputCode site s.initial applied) s.picture

def Phase.started : Phase → Bool
  | .starting | .discarded true => false
  | .discarded false | .running | .lagged => true

structure Inv (site : Site ι F64 F32) (nodes₀ : String → DataValue F32 F64) (strict : Prop)
    (s : State ι F64 F32) : Prop where
  workers : Workers s
  before : s.phase.started = false → s.picture.nodes = nodes₀
  task : s.phase.started = true → ∃ applied, Task site nodes₀ strict s applied

theorem inv_initial (site : Site ι F64 F32) (nodes₀ : String → DataValue F32 F64) (strict : Prop) :
    Inv site nodes₀ strict (State.initialState nodes₀) where
  workers :=
    { filed := fun _ _ hst => by cases hst
      memory := fun _ => rfl
      settled := fun _ _ => rfl
      channel := fun _ => rfl
      carried := fun _ hm => by cases hm
      bound := Nat.le_refl 0 }
  before _ := rfl
  task h := by cases h

/-! ## Steps of the workers -/

variable {site : Site ι F64 F32} {nodes₀ : String → DataValue F32 F64} {strict : Prop}

theorem Inv.update {s : State ι F64 F32} (h : Inv site nodes₀ strict s) (d : ι)
    (comStatus deviceStatus : Bool) (data : List UInt8) (hidle : s.publishing d = false) :
    Inv site nodes₀ strict { s with
      cache := Function.update s.cache d (some ⟨d, comStatus, deviceStatus, data⟩)
      publishing := Function.update s.publishing d true } where
  workers :=
    { filed := h.workers.filed.update ⟨d, comStatus, deviceStatus, data⟩
      memory := h.workers.memory
      settled := by
        intro e he
        dsimp only at he ⊢
        by_cases hed : e = d
        · rw [hed, Function.update_self] at he
          cases he
        · rw [Function.update_of_ne hed] at he ⊢
          exact h.workers.settled e he
      channel := h.workers.channel
      carried := by
        intro m hm
        dsimp only at hm ⊢
        by_cases hd : m.device = d
        · rw [hd, Function.update_self]
          rfl
        · rw [Function.update_of_ne hd]
          exact h.workers.carried m hm
      bound := h.workers.bound }
  before := h.before
  task hstarted := by
    obtain ⟨applied, ht⟩ := h.task hstarted
    refine ⟨applied, ht.filed, ht.filedInitial, ht.kept, ?_, ?_, ht.points, ht.calculated⟩
    · intro e he
      dsimp only at he
      by_cases hed : e = d
      · rw [hed, Function.update_self] at he
        cases he
      · rw [Function.update_of_ne hed] at he
        exact ht.known e he
    · intro hrunning e hnone
      have hold := ht.fresh hrunning e hnone
      dsimp only
      by_cases hed : e = d
      · -- Before the update nothing of the device was on its way.
        subst hed
        have hsettled := h.workers.settled e hidle
        exact .inl (hold.elim id fun hc => hc.trans hsettled)
      · rw [Function.update_of_ne hed]
        exact hold

omit [FloatOps F64 F32] in
/-- A broadcast sends the status of the cache, or finds that it was published before. -/
theorem broadcast_cases {s s' : State ι F64 F32} {d : ι} (hw : Workers s)
    (hb : s.broadcast d = some s') : ∃ st runtime, d = st.device ∧ s.cache st.device = some st ∧
      Remembers runtime st ∧
      (s' = { s with
        runtime := Function.update s.runtime st.device runtime
        publishing := Function.update s.publishing st.device false
        published := Function.update s.published st.device (some st)
        sent := s.sent ++ [st] } ∨
      (s.published st.device = some st ∧ s' = { s with
        runtime := Function.update s.runtime st.device runtime
        publishing := Function.update s.publishing st.device false })) := by
  unfold State.broadcast at hb
  cases hcache : s.cache d with
  | none =>
    rw [hcache] at hb
    cases hb
  | some st =>
    rw [hcache] at hb
    dsimp only at hb
    by_cases hpublishing : s.publishing d = true
    swap
    · rw [if_neg hpublishing] at hb
      cases hb
    rw [if_pos hpublishing] at hb
    obtain rfl := hw.filed d st hcache
    obtain ⟨hmemory, hheld⟩ := shouldBroadcast_memory (s.runtime st.device) st
    refine ⟨st, _, rfl, hcache, hmemory, ?_⟩
    cases hsend : ((s.runtime st.device).shouldBroadcast st.data st.comStatus st.deviceStatus).1 with
    | true =>
      simp only [hsend, if_true] at hb
      exact .inl (Option.some.inj hb).symm
    | false =>
      have hsame : s.published st.device = some st := by
        refine (hw.memory st.device).eq (hheld hsend) fun old hold => ?_
        exact lastSent_device ((hw.channel st.device).symm.trans hold)
      have hpublished : Function.update s.published st.device (some st) = s.published := by
        rw [← hsame]
        exact Function.update_eq_self ..
      simp only [hsend, hpublished, Bool.false_eq_true, if_false] at hb
      exact .inr ⟨hsame, (Option.some.inj hb).symm⟩

theorem Inv.sent {s : State ι F64 F32} {st : DeviceStatus ι} {runtime : DeviceRuntimeState}
    (h : Inv site nodes₀ strict s) (hcache : s.cache st.device = some st)
    (hmemory : Remembers runtime st) : Inv site nodes₀ strict { s with
      runtime := Function.update s.runtime st.device runtime
      publishing := Function.update s.publishing st.device false
      published := Function.update s.published st.device (some st)
      sent := s.sent ++ [st] } := by
  refine ⟨⟨h.workers.filed, ?_, ?_, ?_, ?_, ?_⟩, h.before, ?_⟩
  · intro e
    dsimp only
    by_cases he : e = st.device
    · rw [he, Function.update_self, Function.update_self]
      exact hmemory
    · rw [Function.update_of_ne he, Function.update_of_ne he]
      exact h.workers.memory e
  · intro e hidle
    dsimp only at hidle ⊢
    by_cases he : e = st.device
    · rw [he, Function.update_self]
      exact hcache
    · rw [Function.update_of_ne he] at hidle ⊢
      exact h.workers.settled e hidle
  · intro e
    dsimp only
    rw [lastSent_snoc]
    by_cases he : e = st.device
    · rw [he, Function.update_self, if_pos rfl]
    · rw [Function.update_of_ne he, if_neg (Ne.symm he)]
      exact h.workers.channel e
  · intro m hm
    rcases List.mem_append.mp hm with hm | hm
    · exact h.workers.carried m hm
    · rw [List.mem_singleton.mp hm]
      dsimp only
      rw [hcache]
      rfl
  · have hbound := h.workers.bound
    dsimp only
    rw [List.length_append]
    omega
  · intro hstarted
    obtain ⟨applied, ht⟩ := h.task hstarted
    refine ⟨applied, ht.filed, ht.filedInitial, ht.kept, ht.known, ?_, ht.points, ht.calculated⟩
    intro hrunning e hnone
    dsimp only at hnone ⊢
    rw [List.drop_append_of_le_length h.workers.bound] at hnone
    have he : e ≠ st.device := by
      rintro rfl
      exact hnone st (List.mem_append_right _ (List.mem_singleton_self st)) rfl
    rw [Function.update_of_ne he]
    exact ht.fresh hrunning e fun m hm => hnone m (List.mem_append_left _ hm)

theorem Inv.held {s : State ι F64 F32} {st : DeviceStatus ι} {runtime : DeviceRuntimeState}
    (h : Inv site nodes₀ strict s) (hcache : s.cache st.device = some st)
    (hmemory : Remembers runtime st) (hsame : s.published st.device = some st) :
    Inv site nodes₀ strict { s with
      runtime := Function.update s.runtime st.device runtime
      publishing := Function.update s.publishing st.device false } := by
  refine ⟨⟨h.workers.filed, ?_, ?_, h.workers.channel, h.workers.carried, h.workers.bound⟩,
    h.before, ?_⟩
  · intro e
    dsimp only
    by_cases he : e = st.device
    · rw [he, Function.update_self, hsame]
      exact hmemory
    · rw [Function.update_of_ne he]
      exact h.workers.memory e
  · intro e hidle
    dsimp only at hidle ⊢
    by_cases he : e = st.device
    · rw [he, hcache, hsame]
    · rw [Function.update_of_ne he] at hidle
      exact h.workers.settled e hidle
  · intro hstarted
    obtain ⟨applied, ht⟩ := h.task hstarted
    exact ⟨applied, ht.filed, ht.filedInitial, ht.kept, ht.known, ht.fresh, ht.points, ht.calculated⟩

theorem Inv.broadcast {s s' : State ι F64 F32} {d : ι} (h : Inv site nodes₀ strict s)
    (hb : s.broadcast d = some s') : Inv site nodes₀ strict s' := by
  obtain ⟨st, runtime, -, hcache, hmemory, rfl | ⟨hsame, rfl⟩⟩ := broadcast_cases h.workers hb
  · exact h.sent hcache hmemory
  · exact h.held hcache hmemory hsame

/-! ## Steps of the task -/

theorem Inv.discard {s s' : State ι F64 F32} (h : Inv site nodes₀ strict s)
    (hd : step site s .discard = some s') : Inv site nodes₀ strict s' := by
  have hworkers : Workers { s with next := s.sent.length } :=
    ⟨h.workers.filed, h.workers.memory, h.workers.settled, h.workers.channel, h.workers.carried,
      Nat.le_refl _⟩
  cases hphase : s.phase with
  | starting =>
    simp only [step, hphase] at hd
    obtain rfl := Option.some.inj hd
    refine ⟨⟨hworkers.1, hworkers.2, hworkers.3, hworkers.4, hworkers.5, hworkers.6⟩, fun _ => ?_, fun hs => by cases hs⟩
    exact h.before (by rw [hphase]; rfl)
  | lagged =>
    simp only [step, hphase] at hd
    obtain rfl := Option.some.inj hd
    refine ⟨⟨hworkers.1, hworkers.2, hworkers.3, hworkers.4, hworkers.5, hworkers.6⟩, fun hs => (by cases hs), fun _ => ?_⟩
    obtain ⟨applied, ht⟩ := h.task (by rw [hphase]; rfl)
    exact ⟨applied, ht.filed, ht.filedInitial, ht.kept, ht.known, fun hr => (by cases hr), ht.points,
      ht.calculated⟩
  | discarded first => simp [step, hphase] at hd
  | running => simp [step, hphase] at hd

omit [DecidableEq ι] in
/-- At a start as `StartOk` says the outputs have the code that later updates would give them. -/
theorem Calculated.start {cache : ι → Option (DeviceStatus ι)} (hok : StartOk site cache) :
    Calculated site nodes₀ cache (outputCode site cache cache) (initialSync site cache nodes₀) := by
  have hstart : Calculated site nodes₀ cache (calcUnavailable site cache)
      (initialSync site cache nodes₀) := .initial cache
  rcases hok with hnone | hall | hvalid
  · have hcode : outputCode site cache cache = calcUnavailable site cache :=
      if_pos (List.all_eq_true.mpr fun d _ => by rw [hnone d]; rfl)
    rw [hcode]
    exact hstart
  · have hfull : calcUnavailable site cache = .badNoCommunication :=
      if_pos (List.all_eq_true.mpr fun d _ => hall d)
    rw [hfull] at hstart
    have hcode : outputCode site cache cache = .badNoCommunication := by
      unfold outputCode
      rw [hfull, ite_self]
    rw [hcode]
    exact hstart
  · refine ⟨hstart.context, fun kks hkks hnode => ?_⟩
    rw [hstart.output kks hkks hnode]
    have hcollect : ∀ a b, collectCalcUpdates site ((fullContext site cache).runWithQuality site) a =
        collectCalcUpdates site ((fullContext site cache).runWithQuality site) b := by
      intro a b
      refine List.filterMap_congr fun r hr => ?_
      obtain ⟨name, val, valid⟩ := r
      have htrue : valid = true := hvalid _ hr
      rw [htrue]
      rfl
    unfold outputValue
    rw [hcollect]

theorem Inv.snapshot {s s' : State ι F64 F32} (h : Inv site nodes₀ strict s)
    (hok : strict → SnapshotOk site s .snapshot) (hs : s.snapshot site = some s') :
    Inv site nodes₀ strict s' := by
  have hfiled := h.workers.filed
  unfold State.snapshot at hs
  split at hs
  · rename_i hphase
    obtain rfl := Option.some.inj hs
    have hnodes : s.picture.nodes = nodes₀ := h.before (by rw [hphase]; rfl)
    refine ⟨⟨hfiled, h.workers.memory, h.workers.settled, h.workers.channel, h.workers.carried,
      h.workers.bound⟩,
      fun hf => (by cases hf), fun _ => ⟨s.cache, ?_⟩⟩
    rw [hnodes]
    exact
      { filed := hfiled
        filedInitial := hfiled
        kept := fun _ hd => hd
        known := fun _ hd => hd
        fresh := fun _ _ _ => .inr rfl
        points := .initial hfiled
        calculated := fun hstrict => .start ((hok hstrict).1 hphase) }
  · rename_i hphase
    obtain rfl := Option.some.inj hs
    obtain ⟨applied, ht⟩ := h.task (by rw [hphase]; rfl)
    refine ⟨⟨hfiled, h.workers.memory, h.workers.settled, h.workers.channel, h.workers.carried,
      h.workers.bound⟩,
      fun hf => (by cases hf), fun _ => ⟨s.cache, ?_⟩⟩
    exact
      { filed := hfiled
        filedInitial := ht.filedInitial
        kept := fun d hd => ht.kept d (ht.known d hd)
        known := fun _ hd => hd
        fresh := fun _ _ _ => .inr rfl
        points := ht.points.fullSync hfiled ht.known
        calculated := by
          intro hstrict
          cases hempty : (snapshotStatuses site s.cache).isEmpty with
          | true =>
            have hnone := cache_none_of_isEmpty hfiled hempty
            have hsame : s.cache = applied :=
              funext fun d => (hnone d).trans (ht.known d (hnone d)).symm
            simp only [Picture.fullSync, hempty, if_true]
            rw [hsame]
            exact ht.calculated hstrict
          | false =>
            obtain ⟨st, hst⟩ := List.exists_mem_of_ne_nil _ (List.isEmpty_eq_false_iff.mp hempty)
            have hcode : outputCode site s.initial s.cache = .badNoCommunication :=
              outputCode_some (by rw [(mem_snapshot hfiled).mp hst]; rfl)
            rw [hcode]
            exact .fullSync hfiled ((hok hstrict).2 hphase) hempty }
  · cases hs

theorem Inv.recv {s s' : State ι F64 F32} (h : Inv site nodes₀ strict s)
    (hr : s.recv site = some s') : Inv site nodes₀ strict s' := by
  unfold State.recv at hr
  by_cases hphase : s.phase = .running
  · rw [if_neg (not_not.mpr hphase)] at hr
    obtain ⟨applied, ht⟩ := h.task (by rw [hphase]; rfl)
    split_ifs at hr with hlag
    · obtain rfl := Option.some.inj hr
      refine ⟨⟨h.workers.filed, h.workers.memory, h.workers.settled, h.workers.channel,
        h.workers.carried, Nat.sub_le ..⟩, fun hf => (by cases hf), fun _ => ⟨applied, ?_⟩⟩
      exact ⟨ht.filed, ht.filedInitial, ht.kept, ht.known, fun hf => (by cases hf), ht.points,
        ht.calculated⟩
    · cases hst : s.sent[s.next]? with
      | none =>
        rw [hst] at hr
        cases hr
      | some st =>
        rw [hst] at hr
        obtain rfl := Option.some.inj hr
        obtain ⟨hlt, hget⟩ := List.getElem?_eq_some_iff.mp hst
        refine ⟨⟨h.workers.filed, h.workers.memory, h.workers.settled, h.workers.channel,
          h.workers.carried, hlt⟩,
          fun hf => ?_, fun _ => ⟨Function.update applied st.device (some st), ?_⟩⟩
        · rw [hphase] at hf
          cases hf
        · refine ⟨ht.filed.update st, ht.filedInitial, ?_, ?_, ?_, ht.points.apply, ?_⟩
          · intro d hd
            by_cases he : d = st.device
            · rw [he, Function.update_self] at hd
              cases hd
            · rw [Function.update_of_ne he] at hd
              exact ht.kept d hd
          · intro d hd
            dsimp only at hd
            have he : d ≠ st.device := by
              rintro rfl
              have hsome := h.workers.carried st (List.mem_of_getElem? hst)
              rw [hd] at hsome
              cases hsome
            rw [Function.update_of_ne he]
            exact ht.known d hd
          · intro _ d hnone
            dsimp only at hnone ⊢
            by_cases he : d = st.device
            · subst he
              rw [Function.update_self, h.workers.channel, lastSent_of_last hst hnone]
              exact .inl rfl
            · rw [Function.update_of_ne he]
              refine ht.fresh hphase d fun m hm => ?_
              rw [List.drop_eq_getElem_cons hlt, hget] at hm
              rcases List.mem_cons.mp hm with rfl | hm
              · exact Ne.symm he
              · exact hnone m hm
          · intro hstrict
            have hcode : outputCode site s.initial (Function.update applied st.device (some st)) =
                .badNoCommunication := outputCode_some (by rw [Function.update_self]; rfl)
            dsimp only
            rw [hcode]
            exact (ht.calculated hstrict).apply ht.filed
  · rw [if_pos hphase] at hr
    cases hr

theorem inv_step {s s' : State ι F64 F32} {a : Action ι} (h : Inv site nodes₀ strict s)
    (hok : strict → SnapshotOk site s a) (hstep : step site s a = some s') :
    Inv site nodes₀ strict s' := by
  cases a with
  | update d comStatus deviceStatus data =>
    simp only [step] at hstep
    split_ifs at hstep with hpublishing
    obtain rfl := Option.some.inj hstep
    exact h.update d comStatus deviceStatus data (by simpa using hpublishing)
  | broadcast d => exact h.broadcast hstep
  | discard => exact h.discard hstep
  | snapshot => exact h.snapshot hok hstep
  | recv => exact h.recv hstep

/-! ## Convergence -/

/-- What the task has applied when nothing is left in its receiver is what is newest. -/
theorem Task.newest {s : State ι F64 F32} {applied : ι → Option (DeviceStatus ι)}
    (hw : Workers s) (ht : Task site nodes₀ strict s applied) (hconsumed : Consumed s) :
    Newest s applied := by
  intro d
  have hempty : s.sent.drop s.next = [] := by rw [hconsumed.2, List.drop_length]
  have hfresh := ht.fresh hconsumed.1 d (by rw [hempty]; exact fun m hm => by cases hm)
  cases hpublishing : s.publishing d with
  | false => exact .inl (hfresh.elim (fun hp => hp.trans (hw.settled d hpublishing).symm) id)
  | true => exact hfresh.symm.imp id fun hp => ⟨rfl, hp⟩

/-- Whenever the task has consumed its receiver, the points show the newest statuses, and so do
the outputs if every snapshot of the run was as `SnapshotOk` says. -/
theorem nodes_converge (site : Site ι F64 F32) (nodes₀ : String → DataValue F32 F64)
    (as : List (Action ι)) (s : State ι F64 F32)
    (hrun : exec (step site) (State.initialState nodes₀) as = some s) (hconsumed : Consumed s) :
    ∃ latest, Newest s latest ∧ PointsConverged site nodes₀ s latest ∧
      (Meets (step site) (SnapshotOk site) (State.initialState nodes₀) as →
        Converged site nodes₀ s latest) := by
  have h : Inv site nodes₀ (Meets (step site) (SnapshotOk site) (State.initialState nodes₀) as) s :=
    meets_invariant _ _ (fun _ _ _ hs hok hstep => inv_step hs hok hstep)
      (inv_initial site nodes₀ _) (meets_of_imp id) hrun
  obtain ⟨latest, ht⟩ := h.task (by rw [hconsumed.1]; rfl)
  refine ⟨latest, ht.newest h.workers hconsumed, ?_, ?_⟩
  · intro order horder d kks hkks
    exact points_unique ht.points (expected_points ht.filedInitial ht.filed ht.kept horder) hkks
  · intro hmeets order horder
    exact nodes_unique ht.points (expected_points ht.filedInitial ht.filed ht.kept horder)
      (ht.calculated hmeets) (expected_calculated ht.filedInitial ht.filed ht.kept horder)

/-! ## A lag before every device has reported -/

def sampleRule : CalcRule Int :=
  { kksCalc := "SUM"
    dataType := "uint"
    expression := "A + B"
    maxLimit := 1000
    minLimit := 0
    defaultValue := 7 }

/-- Two stations with one point each, and their sum. -/
def sampleSite : Site Bool Int Int where
  devices := [false, true]
  keyOrder := [false, true]
  dataLen _ := 1
  parseStatus d data kks :=
    if kks = (if d then "B" else "A") then data.head?.elim (some (.uint 0)) fun b => some (.uint b.toUInt32)
    else none
  keys d := [if d then "B" else "A"]
  engine := .new [sampleRule]
  hasNode _ := true
  capacity := 128
  nodup := by decide
  complete d := by cases d <;> decide
  ordered := .refl _
  parse_isSome d data kks := by
    cases data with
    | nil => cases d <;> simp
    | cons b rest => cases d <;> simp
  disjoint d e kks := by
    intro hd he
    cases d <;> cases e <;> simp_all
  outputs d kks := by
    intro hd hout
    have hnames : (CalcEngine.new [sampleRule]).outputNames = ["SUM"] := by decide +kernel
    rw [hnames] at hout
    cases d <;> simp_all

def constructed : String → DataValue Int Int := fun _ => ⟨.uint32 0, .good⟩

/-- More readings of the first station than the channel keeps. -/
def flood : List (Action Bool) :=
  (List.range 129).flatMap fun i =>
    [.update false true true [UInt8.ofNat (i % 2 + 1)], .broadcast false]

def laggedStart : List (Action Bool) := [.discard, .snapshot] ++ flood ++ [.recv, .discard, .snapshot]

/-- The second station has not reported when the task lags: the sum is taken from its default and
not from the zero of the start. -/
theorem lag_before_report : ∃ s,
    exec (step sampleSite) (State.initialState constructed) laggedStart = some s ∧ Consumed s ∧
      (∀ d, s.publishing d = false) ∧
      ∀ latest, Newest s latest → ¬ Converged sampleSite constructed s latest := by
  have hrun : ((exec (step sampleSite) (State.initialState constructed) laggedStart).map fun s =>
      ((s.phase, s.next, s.sent.length), (s.publishing false, s.publishing true),
        s.picture.nodes "SUM",
        (expected sampleSite constructed s.initial s.cache sampleSite.devices).nodes "SUM")) =
      some ((.running, 129, 129), (false, false), ⟨.uint32 7, .badNoCommunication⟩,
        ⟨.uint32 1, .badNoCommunication⟩) := by decide +kernel
  obtain ⟨s, hs, hfacts⟩ := Option.map_eq_some_iff.mp hrun
  simp only [Prod.mk.injEq] at hfacts
  obtain ⟨⟨hphase, hnext, hlength⟩, ⟨hfirst, hsecond⟩, hshown, hexpected⟩ := hfacts
  have hidle : ∀ d, s.publishing d = false := by
    intro d
    cases d with
    | false => exact hfirst
    | true => exact hsecond
  refine ⟨s, hs, ⟨hphase, hnext.trans hlength.symm⟩, hidle, ?_⟩
  intro latest hlatest hconverged
  have hcache : latest = s.cache := by
    funext d
    refine (hlatest d).resolve_right fun hp => ?_
    rw [hidle d] at hp
    cases hp.1
  have hsum := congrFun (hconverged sampleSite.devices (.refl _)) "SUM"
  rw [hcache, hshown, hexpected] at hsum
  cases hsum

/-- The first station has reported when the task starts and the second has not: the sum waits for
initial data, where an update with the newest status would find no communication. -/
theorem partial_start : ∃ s,
    exec (step sampleSite) (State.initialState constructed)
      [.update false true true [1], .broadcast false, .discard, .snapshot] = some s ∧ Consumed s ∧
      s.picture.nodes "SUM" = ⟨.uint32 1, .badWaitingForInitialData⟩ ∧
      (expected sampleSite constructed s.initial s.cache sampleSite.devices).nodes "SUM" =
        ⟨.uint32 1, .badNoCommunication⟩ := by
  have hrun : ((exec (step sampleSite) (State.initialState constructed)
      [.update false true true [1], .broadcast false, .discard, .snapshot]).map fun s =>
      ((s.phase, s.next, s.sent.length), s.picture.nodes "SUM",
        (expected sampleSite constructed s.initial s.cache sampleSite.devices).nodes "SUM")) =
      some ((.running, 1, 1), ⟨.uint32 1, .badWaitingForInitialData⟩,
        ⟨.uint32 1, .badNoCommunication⟩) := by decide +kernel
  obtain ⟨s, hs, hfacts⟩ := Option.map_eq_some_iff.mp hrun
  simp only [Prod.mk.injEq] at hfacts
  obtain ⟨⟨hphase, hnext, hlength⟩, hshown, hexpected⟩ := hfacts
  exact ⟨s, hs, ⟨hphase, hnext.trans hlength.symm⟩, hshown, hexpected⟩

/-- A snapshot that finds no device at the start, or every device later. -/
def snapshotCheck (site : Site ι F64 F32) (s : State ι F64 F32) : Action ι → Bool
  | .snapshot =>
    (s.phase != .discarded true || site.devices.all fun d => (s.cache d).isNone) &&
      (s.phase != .discarded false || site.devices.all fun d => (s.cache d).isSome)
  | _ => true

omit [DecidableEq ι] in
theorem snapshotCheck_ok (s : State ι F64 F32) (a : Action ι) (h : snapshotCheck site s a = true) :
    SnapshotOk site s a := by
  cases a with
  | snapshot =>
    simp only [snapshotCheck, Bool.and_eq_true, Bool.or_eq_true, bne_iff_ne, ne_eq, List.all_eq_true]
      at h
    refine ⟨fun hphase => .inl fun d => ?_, fun hphase d hd => ?_⟩
    · exact Option.isNone_iff_eq_none.mp (h.1.resolve_left (not_not.mpr hphase) d (site.complete d))
    · have hsome := h.2.resolve_left (not_not.mpr hphase) d (site.complete d)
      rw [hd] at hsome
      cases hsome
  | update | broadcast | discard | recv => trivial

def laggedLater : List (Action Bool) :=
  [.discard, .snapshot, .update true false false [0], .broadcast true] ++ flood ++
    [.recv, .discard, .snapshot]

theorem nodes_converge_after_lag : ∃ s latest,
    exec (step sampleSite) (State.initialState constructed) laggedLater = some s ∧
      Newest s latest ∧ PointsConverged sampleSite constructed s latest ∧
      Converged sampleSite constructed s latest := by
  have hrun : ((exec (step sampleSite) (State.initialState constructed) laggedLater).map fun s =>
      (s.phase, s.next, s.sent.length)) = some (.running, 130, 130) := by decide +kernel
  obtain ⟨s, hs, hfacts⟩ := Option.map_eq_some_iff.mp hrun
  simp only [Prod.mk.injEq] at hfacts
  obtain ⟨hphase, hnext, hlength⟩ := hfacts
  have hmeets : Meets (step sampleSite) (SnapshotOk sampleSite) (State.initialState constructed)
      laggedLater := meets_of_meetsAll snapshotCheck_ok (by decide +kernel)
  obtain ⟨latest, hnewest, hpoints, hall⟩ :=
    nodes_converge sampleSite constructed laggedLater s hs ⟨hphase, hnext.trans hlength.symm⟩
  exact ⟨s, latest, hs, hnewest, hpoints, hall hmeets⟩

end RcdServer.Opc.Nodes
