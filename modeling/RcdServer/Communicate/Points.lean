import Mathlib.Data.List.Perm.Subperm
import RcdServer.Communicate.Mailboxes

/-!
# Received points

`PointStore` of `points.rs`: the sample of every configured point and the counters of every port.
A task's points are published together, after the whole response has been checked, and fail
together; every call holds the lock of the store from its first write to its last.
-/
namespace RcdServer.Communicate.Points

variable {F32 F64 : Type}

/-! ## Samples -/

/-- `is_finite` of the two floating point types. -/
class Floating (F : Type) where
  isFinite : F → Bool

def dataType : Value F32 F64 → DataType
  | .boolean _ => .boolean
  | .uint32 _ => .uint32
  | .float _ => .float
  | .double _ => .double
  | .string _ => .string

def valid [Floating F32] [Floating F64] : Value F32 F64 → Bool
  | .float v => Floating.isFinite v
  | .double v => Floating.isFinite v
  | .string v => decide (v.utf8ByteSize ≤ 16 * 1024)
  | _ => true

structure Sample (F32 F64 : Type) where
  value : Value F32 F64
  quality : Quality
  sourceTimestamp : Option Utc
  error : String
  deriving DecidableEq

structure PointUpdate (F32 F64 : Type) where
  name : String
  value : Value F32 F64
  quality : Quality
  error : String
  deriving DecidableEq

/-- The counters are `u32` and stop at their largest value. -/
structure PortSnapshot where
  state : String
  lastError : String := ""
  lastAttemptAt : Option Utc := none
  lastSuccessAt : Option Utc := none
  attempts : Nat := 0
  successes : Nat := 0
  failures : Nat := 0
  reconnects : Nat := 0
  rejectedFrames : Nat := 0
  discardedBytes : Nat := 0
  partialTimeouts : Nat := 0
  deriving DecidableEq

/-- `u32::saturating_add`. -/
def saturatingAdd (n m : Nat) : Nat := min (n + m) (2 ^ 32 - 1)

/-- A poisoned lock ends the process's use of the store and has no constructor. -/
inductive StoreError where
  | unknown (id : String)
  | invalidBatch (text : String)
  deriving DecidableEq

def StoreError.text : StoreError → String
  | .unknown id => "unknown task or port: " ++ id
  | .invalidBatch text =>
    "response does not match the configured task point set or type: " ++ text

def shortError (value : String) : String := String.ofList (value.toList.take 1024)

/-! ## The configuration -/

structure PointDefinition where
  name : String
  taskId : String
  dataType : DataType
  deriving DecidableEq

structure TaskConfig where
  id : String
  protocol : String
  enabled : Bool
  deriving DecidableEq

structure PortConfig where
  id : String
  enabled : Bool
  tasks : List TaskConfig
  deriving DecidableEq

/-- A configuration that `config::load` accepts has no two points of one name. -/
structure Config where
  ports : List PortConfig
  definitions : List PointDefinition
  names : (definitions.map (·.name)).Nodup

namespace Config

/-- `self.definitions.get(name)`. -/
def definition (c : Config) (name : String) : Option PointDefinition :=
  c.definitions.find? fun d => d.name == name

/-- The names of the points that carry the task's id. -/
def pointsOf (c : Config) (task : String) : List String :=
  (c.definitions.filter fun d => d.taskId == task).map (·.name)

/-- `self.tasks.get(task)`. -/
def tasks (c : Config) (task : String) : Option (List String) :=
  if c.ports.any fun p => p.tasks.any fun t => t.id == task then some (c.pointsOf task) else none

/-- `self.task_ports.get(task)`: a later insertion replaces an earlier one. -/
def taskPort (c : Config) (task : String) : Option String :=
  (c.ports.reverse.find? fun p => p.tasks.any fun t => t.id == task).map (·.id)

/-- The quality that `PointStore::new` gives the points of a task. -/
def initial (c : Config) (task : String) : Quality :=
  match c.ports.reverse.findSome? fun p => (p.tasks.reverse.find? (·.id == task)).map ((p, ·)) with
  | none => .configuration
  | some (port, task) =>
    if !port.enabled || !task.enabled then .outOfService
    else if task.protocol = "pending" then .configuration
    else .waiting

end Config

/-! ## The store -/

structure Store (F32 F64 : Type) where
  samples : String → Option (Sample F32 F64)
  ports : String → Option PortSnapshot

namespace Store

section Calls

variable [Zero F32] [Zero F64] (c : Config)

def new : Store F32 F64 where
  samples name := (c.definition name).map fun d =>
    { value := d.dataType.zero
      quality := c.initial d.taskId
      sourceTimestamp := none
      error := if c.initial d.taskId = .outOfService then "acquisition disabled" else "" }
  ports id := (c.ports.reverse.find? (·.id == id)).map fun p =>
    { state := if p.enabled && p.tasks.any (·.enabled) then "Waiting" else "Disabled" }

def onPort (s : Store F32 F64) (id : String) (f : PortSnapshot → PortSnapshot) :
    Except StoreError (Store F32 F64) :=
  match s.ports id with
  | none => .error (.unknown id)
  | some port => .ok { s with ports := Function.update s.ports id (some (f port)) }

def portState (s : Store F32 F64) (id status error : String) (reconnected : Bool) :
    Except StoreError (Store F32 F64) :=
  s.onPort id fun port =>
    { port with
      state := status
      lastError := shortError error
      reconnects := if reconnected then saturatingAdd port.reconnects 1 else port.reconnects }

def attempt (s : Store F32 F64) (task : String) (now : Utc) : Except StoreError (Store F32 F64) :=
  match c.taskPort task with
  | none => .error (.unknown task)
  | some id =>
    s.onPort id fun port =>
      { port with attempts := saturatingAdd port.attempts 1, lastAttemptAt := some now }

def recordFrameErrors (s : Store F32 F64) (id : String) (rejected discarded : Nat)
    (expired : Bool) : Except StoreError (Store F32 F64) :=
  s.onPort id fun port =>
    { port with
      rejectedFrames := saturatingAdd port.rejectedFrames (min rejected (2 ^ 32 - 1))
      discardedBytes := saturatingAdd port.discardedBytes (min discarded (2 ^ 32 - 1))
      partialTimeouts := saturatingAdd port.partialTimeouts expired.toNat }

/-- The port of the task, if it is known; an unknown one is passed over. -/
def onTaskPort (s : Store F32 F64) (task : String) (f : PortSnapshot → PortSnapshot) :
    Store F32 F64 :=
  match c.taskPort task with
  | none => s
  | some id =>
    match s.ports id with
    | none => s
    | some port => { s with ports := Function.update s.ports id (some (f port)) }

/-- The loop over the updates that comes before the first write. -/
def checkUpdates [Floating F32] [Floating F64] (task : String) :
    List String → List (PointUpdate F32 F64) → Except StoreError Unit
  | _, [] => .ok ()
  | seen, update :: updates =>
    match c.definition update.name with
    | none => .error (.invalidBatch update.name)
    | some d =>
      if d.taskId ≠ task ∨ d.dataType ≠ dataType update.value ∨ !valid update.value ∨
          update.name ∈ seen then
        .error (.invalidBatch update.name)
      else checkUpdates task (update.name :: seen) updates

def publishedSample (update : PointUpdate F32 F64) (sourceTime : Utc) : Sample F32 F64 where
  value := if update.quality = .good then update.value else (dataType update.value).zero
  quality := update.quality
  sourceTimestamp := some sourceTime
  error := shortError update.error

def insertAll (s : Store F32 F64) (sourceTime : Utc) :
    List (PointUpdate F32 F64) → Store F32 F64
  | [] => s
  | update :: updates =>
    let samples := Function.update s.samples update.name (some (publishedSample update sourceTime))
    insertAll { s with samples := samples } sourceTime updates

def publish [Floating F32] [Floating F64] (s : Store F32 F64) (task : String)
    (updates : List (PointUpdate F32 F64)) (sourceTime now : Utc) :
    Except StoreError (Store F32 F64) :=
  match c.tasks task with
  | none => .error (.unknown task)
  | some names =>
    if names.length ≠ updates.length then .error (.invalidBatch task)
    else
      match checkUpdates c task [] updates with
      | .error e => .error e
      | .ok () =>
        .ok ((s.insertAll sourceTime updates).onTaskPort c task fun port =>
          { port with
            successes := saturatingAdd port.successes 1
            lastSuccessAt := some now })

/-- The time of the last valid response is kept. -/
def failedSample (quality : Quality) (error : String) (sample : Sample F32 F64) :
    Sample F32 F64 :=
  { sample with
    value := (dataType sample.value).zero
    quality := quality
    error := shortError error }

def fail (s : Store F32 F64) (task : String) (quality : Quality) (error : String) :
    Except StoreError (Store F32 F64) :=
  if quality = .good then .error (.invalidBatch "failure cannot be Good")
  else
    match c.tasks task with
    | none => .error (.unknown task)
    | some names =>
      let samples := fun name =>
        if name ∈ names then (s.samples name).map (failedSample quality error) else s.samples name
      .ok (Store.onTaskPort c { s with samples := samples } task fun port =>
        { port with
          failures := saturatingAdd port.failures 1
          lastError := shortError error })

end Calls

end Store

/-! ## What the calls do to the samples -/

section Specs

variable {c : Config} {s s' : Store F32 F64} {task : String}

theorem definition_eq_some {name : String} {d : PointDefinition} :
    c.definition name = some d ↔ d ∈ c.definitions ∧ d.name = name := by
  constructor
  · intro h
    exact ⟨List.mem_of_find?_eq_some h, by simpa using List.find?_some h⟩
  · rintro ⟨hmem, rfl⟩
    cases hfind : c.definition d.name with
    | none => simpa using List.find?_eq_none.mp hfind d hmem
    | some d' =>
      have hname : d'.name = d.name := by simpa using List.find?_some hfind
      rw [List.inj_on_of_nodup_map c.names (List.mem_of_find?_eq_some hfind) hmem hname]

theorem mem_pointsOf {name : String} :
    name ∈ c.pointsOf task ↔ ∃ d, c.definition name = some d ∧ d.taskId = task := by
  simp only [Config.pointsOf, List.mem_map, List.mem_filter, beq_iff_eq, definition_eq_some]
  constructor
  · rintro ⟨d, ⟨hmem, htask⟩, hname⟩
    exact ⟨d, ⟨hmem, hname⟩, htask⟩
  · rintro ⟨d, ⟨hmem, hname⟩, htask⟩
    exact ⟨d, ⟨hmem, htask⟩, hname⟩

/-- A point belongs to one task. -/
theorem pointsOf_disjoint {other name : String} (hne : other ≠ task)
    (h : name ∈ c.pointsOf task) : name ∉ c.pointsOf other := by
  intro hother
  obtain ⟨d, hd, rfl⟩ := mem_pointsOf.mp h
  obtain ⟨d', hd', rfl⟩ := mem_pointsOf.mp hother
  exact hne (congrArg PointDefinition.taskId (Option.some.inj (hd'.symm.trans hd)))

theorem tasks_eq_some {names : List String} (h : c.tasks task = some names) :
    names = c.pointsOf task := by
  unfold Config.tasks at h
  split at h
  · exact (Option.some.inj h).symm
  · cases h

namespace Store

theorem onPort_samples {id : String} {f : PortSnapshot → PortSnapshot}
    (h : s.onPort id f = .ok s') : s'.samples = s.samples := by
  unfold onPort at h
  cases hport : s.ports id with
  | none => simp [hport] at h
  | some port =>
    simp only [hport] at h
    cases h
    rfl

theorem attempt_samples {now : Utc} (h : s.attempt c task now = .ok s') :
    s'.samples = s.samples := by
  unfold attempt at h
  cases hport : c.taskPort task with
  | none => simp [hport] at h
  | some id =>
    simp only [hport] at h
    exact onPort_samples h

@[simp]
theorem onTaskPort_samples (s : Store F32 F64) (task : String) (f : PortSnapshot → PortSnapshot) :
    (s.onTaskPort c task f).samples = s.samples := by
  unfold onTaskPort
  split
  · rfl
  · split <;> rfl

theorem checkUpdates_ok [Floating F32] [Floating F64] {seen : List String}
    {updates : List (PointUpdate F32 F64)} (h : checkUpdates c task seen updates = .ok ()) :
    (updates.map (·.name)).Nodup ∧
      ∀ name ∈ updates.map (·.name), name ∈ c.pointsOf task ∧ name ∉ seen := by
  induction updates generalizing seen with
  | nil => simp
  | cons u updates ih =>
    unfold checkUpdates at h
    cases hd : c.definition u.name with
    | none => simp [hd] at h
    | some d =>
      simp only [hd] at h
      split at h
      · cases h
      rename_i hgood
      simp only [not_or, not_not] at hgood
      obtain ⟨hnodup, hrest⟩ := ih h
      constructor
      · refine List.nodup_cons.mpr ⟨fun hmem => ?_, hnodup⟩
        exact (hrest _ hmem).2 List.mem_cons_self
      · intro name hname
        rcases List.mem_cons.mp hname with rfl | hname
        · exact ⟨mem_pointsOf.mpr ⟨d, hd, hgood.1⟩, hgood.2.2.2⟩
        · obtain ⟨hpoint, hseen⟩ := hrest name hname
          exact ⟨hpoint, fun hmem => hseen (List.mem_cons_of_mem _ hmem)⟩

section Writes

variable [Zero F32] [Zero F64]

theorem insertAll_other {sourceTime : Utc} {updates : List (PointUpdate F32 F64)} {name : String}
    (h : name ∉ updates.map (·.name)) :
    (s.insertAll sourceTime updates).samples name = s.samples name := by
  induction updates generalizing s with
  | nil => rfl
  | cons u updates ih =>
    simp only [List.map_cons, List.mem_cons, not_or] at h
    rw [insertAll, ih h.2]
    exact Function.update_of_ne h.1 _ _

theorem insertAll_mem {sourceTime : Utc} {updates : List (PointUpdate F32 F64)}
    (hnodup : (updates.map (·.name)).Nodup) {u : PointUpdate F32 F64} (h : u ∈ updates) :
    (s.insertAll sourceTime updates).samples u.name = some (publishedSample u sourceTime) := by
  induction updates generalizing s with
  | nil => cases h
  | cons v updates ih =>
    obtain ⟨hv, hnodup⟩ := List.nodup_cons.mp hnodup
    rw [insertAll]
    rcases List.mem_cons.mp h with rfl | h
    · rw [insertAll_other hv]
      exact Function.update_self ..
    · exact ih hnodup h

/-- Complete batches: equal lengths and no name twice leave no point of the task out. -/
theorem publish_checked [Floating F32] [Floating F64] {updates : List (PointUpdate F32 F64)}
    {sourceTime now : Utc} (h : s.publish c task updates sourceTime now = .ok s') :
    checkUpdates c task [] updates = .ok () ∧ (updates.map (·.name)).Nodup ∧
      (updates.map (·.name)).Perm (c.pointsOf task) ∧
      s'.samples = (s.insertAll sourceTime updates).samples := by
  unfold publish at h
  cases hnames : c.tasks task with
  | none => simp [hnames] at h
  | some names =>
    obtain rfl := tasks_eq_some hnames
    simp only [hnames] at h
    split at h
    · cases h
    rename_i hlen
    cases hcheck : checkUpdates c task [] updates with
    | error e => simp [hcheck] at h
    | ok u =>
      simp only [hcheck] at h
      cases h
      obtain ⟨hnodup, hpoints⟩ := checkUpdates_ok hcheck
      refine ⟨rfl, hnodup, ?_, onTaskPort_samples ..⟩
      refine (List.subperm_of_subset hnodup fun name h => (hpoints name h).1).perm_of_length_le ?_
      rw [List.length_map]
      omega

/-- A published response covers the points of its task and no others. -/
theorem publish_ok [Floating F32] [Floating F64] {updates : List (PointUpdate F32 F64)}
    {sourceTime now : Utc} (h : s.publish c task updates sourceTime now = .ok s') :
    (∀ name ∈ c.pointsOf task, ∃ u ∈ updates, u.name = name ∧
      s'.samples name = some (publishedSample u sourceTime)) ∧
    ∀ name ∉ c.pointsOf task, s'.samples name = s.samples name := by
  obtain ⟨-, hnodup, hperm, hsamples⟩ := publish_checked h
  rw [hsamples]
  constructor
  · intro name hname
    obtain ⟨u, hu, rfl⟩ := List.mem_map.mp (hperm.mem_iff.mpr hname)
    exact ⟨u, hu, rfl, insertAll_mem hnodup hu⟩
  · intro name hname
    exact insertAll_other fun h => hname (hperm.mem_iff.mp h)

theorem fail_ok {quality : Quality} {error : String} (h : s.fail c task quality error = .ok s') :
    quality ≠ .good ∧
    (∀ name ∈ c.pointsOf task,
      s'.samples name = (s.samples name).map (failedSample quality error)) ∧
    ∀ name ∉ c.pointsOf task, s'.samples name = s.samples name := by
  unfold fail at h
  split at h
  · cases h
  rename_i hquality
  cases hnames : c.tasks task with
  | none => simp [hnames] at h
  | some names =>
    obtain rfl := tasks_eq_some hnames
    simp only [hnames] at h
    cases h
    refine ⟨hquality, ?_, ?_⟩
    · intro name hname
      rw [onTaskPort_samples]
      exact if_pos hname
    · intro name hname
      rw [onTaskPort_samples]
      exact if_neg hname

end Writes

end Store

end Specs

end RcdServer.Communicate.Points
