import Mathlib.Data.List.Dedup
import RcdServer.Lib.Run
import RcdServer.Operations.Maintenance

/-!
# Safety of the maintenance fence

The record on disk decides. As long as it is the active record of an owner, the gate in memory
either carries the same owner or was not loaded, and both block admissions. The shapes below are
all that memory, disk and the holder of the transition lock can look like together.
-/
namespace RcdServer.Operations.Maintenance

open Lib Lib.Run

/-! ## Owners and records -/

/-- The record after `r`: the same owner, or the next owner of a released fence. -/
def Record.Follows (r next : Record) : Prop :=
  (next.deploymentId = r.deploymentId ∧ next.fencingToken = r.fencingToken) ∨
    (r.active = false ∧ next.active = true ∧ next.fencingToken = r.fencingToken + 1)

def Record.release (r : Record) : Record := { r with active := false }

/-- The disk holds the active record of this owner. -/
def Disk.Fenced (deployment : String) (token : Nat) (disk : Disk) : Prop :=
  ∃ r, disk = .stored r ∧ r.active = true ∧ r.deploymentId = deployment ∧ r.fencingToken = token

def Gate.Blocked (g : Gate) : Prop := g.record.active = true ∨ g.durable = false

theorem Record.Follows.refl (r : Record) : r.Follows r := .inl ⟨rfl, rfl⟩

theorem Record.Follows.token_le {r next : Record} (h : r.Follows next) :
    r.fencingToken ≤ next.fencingToken := by
  obtain ⟨-, h⟩ | ⟨-, -, h⟩ := h <;> omega

/-- An active record is followed by its own owner only. -/
theorem Record.Follows.owner {r next : Record} (h : r.Follows next) (hr : r.active = true) :
    next.deploymentId = r.deploymentId ∧ next.fencingToken = r.fencingToken := by
  obtain h | ⟨hn, -, -⟩ := h
  · exact h
  · simp [hr] at hn

theorem Gate.takeAdmission_eq_ok {g g' : Gate} (h : g.takeAdmission = .ok g') :
    ¬g.Blocked ∧ g' = { g with pending := g.pending + 1 } := by
  unfold Gate.takeAdmission at h
  split at h
  · cases h
  · rename_i hopen
    split at h
    · cases h
      exact ⟨by simpa [Gate.Blocked] using hopen, rfl⟩
    · cases h

/-! ## What the two calls decide -/

theorem Gate.enter_eq_ok {g : Gate} {deployment : String} {token : Nat}
    (h : g.enter deployment token = .done (.ok ())) :
    g.durable = true ∧ g.record.active = true ∧ g.record.deploymentId = deployment ∧
      g.record.fencingToken = token := by
  unfold Gate.enter at h
  generalize validateOwner deployment token = valid at h
  cases valid with
  | error e => cases h
  | ok u =>
    simp only at h
    split at h
    · cases h
    · split at h
      · rename_i hactive
        split at h
        · cases h
        · rename_i howner
          split at h
          · rename_i hdurable
            simp only [ne_eq, not_or, not_not] at howner
            exact ⟨hdurable, hactive, howner⟩
          · cases h
      · split at h <;> cases h

/-- An `enter` that goes on to its save repeats an unconfirmed one, or takes a released fence. -/
theorem Gate.enter_eq_save {g g' : Gate} {deployment : String} {token : Nat} {next : Record}
    (h : g.enter deployment token = .save g' next) :
    g' = { g with record := next, durable := false } ∧ next.active = true ∧
      ((g.record.active = true ∧ g.durable = false ∧
          next.deploymentId = g.record.deploymentId ∧
          next.fencingToken = g.record.fencingToken) ∨
        (g.record.active = false ∧ g.durable = true ∧
          next.fencingToken = g.record.fencingToken + 1)) := by
  unfold Gate.enter at h
  generalize validateOwner deployment token = valid at h
  cases valid with
  | error e => cases h
  | ok u =>
    simp only at h
    split at h
    · cases h
    · rename_i hknown
      split at h
      · rename_i hactive
        split at h
        · cases h
        · rename_i howner
          simp only [ne_eq, not_or, not_not] at howner
          split at h
          · cases h
          · rename_i hdurable
            cases h
            exact ⟨rfl, rfl, .inl ⟨hactive, by simpa using hdurable, howner.1.symm, howner.2.symm⟩⟩
      · rename_i hactive
        have hinactive : g.record.active = false := by simpa using hactive
        have hdurable : g.durable = true := by simpa [hinactive] using hknown
        split at h
        · rename_i htoken
          cases h
          exact ⟨rfl, rfl, .inr ⟨hinactive, hdurable, htoken.2.symm⟩⟩
        · cases h

theorem Gate.leave_eq_save {g g' : Gate} {deployment : String} {token ports : Nat} {next : Record}
    (h : g.leave deployment token ports = .save g' next) :
    g' = g ∧ next = g.record.release ∧ g.durable = true ∧ g.record.active = true ∧
      g.pending = 0 ∧ ports = 0 := by
  unfold Gate.leave at h
  generalize validateOwner deployment token = valid at h
  cases valid with
  | error e => cases h
  | ok u =>
    simp only at h
    split at h
    · cases h
    · split at h
      · cases h
      · rename_i hdurable
        split at h
        · cases h
        · rename_i hactive
          split at h
          · cases h
          · rename_i hdrained
            cases h
            simp only [ne_eq, not_or, not_not] at hdrained
            exact ⟨rfl, rfl, by simpa using hdurable, by simpa using hactive, hdrained⟩

/-! ## Memory and disk together -/

inductive Shape : Disk → Gate → Option Phase → Prop
  /-- The load failed: nothing is known about the fence on disk. -/
  | unloaded {disk : Disk} {g : Gate} (hactive : g.record.active = false)
      (hdurable : g.durable = false) : Shape disk g none
  | loaded {g : Gate} (hdurable : g.durable = true) : Shape (.stored g.record) g none
  /-- A save was reported as failed: either record may be on disk. -/
  | unconfirmed {r : Record} {g : Gate} (hactive : g.record.active = true)
      (hdurable : g.durable = false) (hfollows : r.Follows g.record) : Shape (.stored r) g none
  | entering {r : Record} {g : Gate} (hactive : g.record.active = true)
      (hdurable : g.durable = false) (hfollows : r.Follows g.record) :
      Shape (.stored r) g (some (.saving false g.record))
  | entered {g : Gate} {result : Except String Unit} (hactive : g.record.active = true)
      (hdurable : g.durable = false) :
      Shape (.stored g.record) g (some (.saved false g.record result))
  | notEntered {r : Record} {g : Gate} {e : String} (hactive : g.record.active = true)
      (hdurable : g.durable = false) (hfollows : r.Follows g.record) :
      Shape (.stored r) g (some (.saved false g.record (.error e)))
  | leaving {g : Gate} (hactive : g.record.active = true) (hdurable : g.durable = true) :
      Shape (.stored g.record) g (some (.saving true g.record.release))
  | left {g : Gate} {result : Except String Unit} (hactive : g.record.active = true)
      (hdurable : g.durable = true) :
      Shape (.stored g.record.release) g (some (.saved true g.record.release result))
  | notLeft {g : Gate} {e : String} (hactive : g.record.active = true)
      (hdurable : g.durable = true) :
      Shape (.stored g.record) g (some (.saved true g.record.release (.error e)))

/-- An active record on disk blocks admissions, whatever memory holds. -/
theorem Shape.blocked {disk : Disk} {g : Gate} {p : Option Phase} (h : Shape disk g p)
    {deployment : String} {token : Nat} (hf : disk.Fenced deployment token) : g.Blocked := by
  obtain ⟨r, hdisk, hr, -⟩ := hf
  cases h with
  | unloaded _ hdurable => exact .inr hdurable
  | loaded _ =>
    obtain rfl : g.record = r := by simpa using hdisk
    exact .inl hr
  | unconfirmed hactive _ _ => exact .inl hactive
  | entering hactive _ _ => exact .inl hactive
  | entered hactive _ => exact .inl hactive
  | notEntered hactive _ _ => exact .inl hactive
  | leaving hactive _ => exact .inl hactive
  | left hactive _ => exact .inl hactive
  | notLeft hactive _ => exact .inl hactive

/-- The holder of the transition lock keeps the record active in memory. -/
theorem Shape.active {disk : Disk} {g : Gate} {p : Phase} (h : Shape disk g (some p)) :
    g.record.active = true := by
  cases h with
  | entering hactive _ _ => exact hactive
  | entered hactive _ => exact hactive
  | notEntered hactive _ _ => exact hactive
  | leaving hactive _ => exact hactive
  | left hactive _ => exact hactive
  | notLeft hactive _ => exact hactive

/-- A shape does not depend on the admission count and the error text. -/
theorem Shape.congr {disk : Disk} {g g' : Gate} {p : Option Phase} (h : Shape disk g p)
    (hrecord : g'.record = g.record) (hdurable : g'.durable = g.durable) : Shape disk g' p := by
  obtain ⟨record, pending, durable, error⟩ := g
  obtain ⟨record', pending', durable', error'⟩ := g'
  simp only at hrecord hdurable
  subst hrecord hdurable
  cases h with
  | unloaded h₁ h₂ => exact .unloaded h₁ h₂
  | loaded h₁ => exact .loaded (g := ⟨_, pending', _, error'⟩) h₁
  | unconfirmed h₁ h₂ h₃ => exact .unconfirmed h₁ h₂ h₃
  | entering h₁ h₂ h₃ => exact .entering (g := ⟨_, pending', _, error'⟩) h₁ h₂ h₃
  | entered h₁ h₂ => exact .entered (g := ⟨_, pending', _, error'⟩) h₁ h₂
  | notEntered h₁ h₂ h₃ => exact .notEntered (g := ⟨_, pending', _, error'⟩) h₁ h₂ h₃
  | leaving h₁ h₂ => exact .leaving (g := ⟨_, pending', _, error'⟩) h₁ h₂
  | left h₁ h₂ => exact .left (g := ⟨_, pending', _, error'⟩) h₁ h₂
  | notLeft h₁ h₂ => exact .notLeft (g := ⟨_, pending', _, error'⟩) h₁ h₂

theorem Shape.enter {disk : Disk} {g g' : Gate} {deployment : String} {token : Nat} {next : Record}
    (h : Shape disk g none) (henter : g.enter deployment token = .save g' next) :
    Shape disk g' (some (.saving false next)) := by
  obtain ⟨rfl, hnext, hcase⟩ := Gate.enter_eq_save henter
  obtain ⟨hactive, hdurable, howner⟩ | ⟨hactive, hdurable, htoken⟩ := hcase
  · cases h with
    | unloaded hi _ => simp [hactive] at hi
    | loaded hd => simp [hdurable] at hd
    | unconfirmed _ _ hfollows =>
      refine .entering (g := { g with record := next, durable := false }) hnext rfl ?_
      rcases hfollows with hsame | ⟨hr, ha, ht⟩
      · exact .inl ⟨howner.1.trans hsame.1, howner.2.trans hsame.2⟩
      · exact .inr ⟨hr, hnext, howner.2.trans ht⟩
  · cases h with
    | unloaded _ hd => simp [hdurable] at hd
    | unconfirmed ha _ _ => simp [hactive] at ha
    | loaded _ =>
      exact .entering (g := { g with record := next, durable := false }) hnext rfl
        (.inr ⟨hactive, hnext, htoken⟩)

theorem Shape.leave {disk : Disk} {g g' : Gate} {deployment : String} {token ports : Nat}
    {next : Record} (h : Shape disk g none)
    (hleave : g.leave deployment token ports = .save g' next) :
    Shape disk g' (some (.saving true next)) := by
  obtain ⟨rfl, rfl, hdurable, hactive, -⟩ := Gate.leave_eq_save hleave
  cases h with
  | unloaded hi _ => simp [hactive] at hi
  | unconfirmed _ hd _ => simp [hdurable] at hd
  | loaded _ => exact .leaving hactive hdurable

/-- A save that reached the disk. -/
theorem Shape.commit {r : Record} {g : Gate} {leaving : Bool} {next : Record}
    {result : Except String Unit} (h : Shape (.stored r) g (some (.saving leaving next))) :
    Shape (.stored next) g (some (.saved leaving next result)) := by
  cases h with
  | entering hactive hdurable _ => exact .entered hactive hdurable
  | leaving hactive hdurable => exact .left hactive hdurable

theorem Shape.failed {disk : Disk} {g : Gate} {leaving : Bool} {next : Record} {e : String}
    (h : Shape disk g (some (.saving leaving next))) :
    Shape disk g (some (.saved leaving next (.error e))) := by
  cases h with
  | entering hactive hdurable hfollows => exact .notEntered hactive hdurable hfollows
  | leaving hactive hdurable => exact .notLeft hactive hdurable

theorem Shape.settle {disk : Disk} {g : Gate} {leaving : Bool} {next : Record}
    {result : Except String Unit} (h : Shape disk g (some (.saved leaving next result))) :
    Shape disk (g.settle next result) none := by
  cases result with
  | ok u =>
    cases h with
    | entered _ _ => exact .loaded (g := g.settle g.record (.ok u)) rfl
    | left _ _ => exact .loaded (g := g.settle g.record.release (.ok u)) rfl
  | error e =>
    -- An unconfirmed release leaves the record active: its owner may repeat `enter` only.
    cases h with
    | entered hactive _ => exact .unconfirmed hactive rfl (.refl _)
    | notEntered hactive _ hfollows => exact .unconfirmed hactive rfl hfollows
    | left hactive _ => exact .unconfirmed hactive rfl (.inl ⟨rfl, rfl⟩)
    | notLeft hactive _ => exact .unconfirmed hactive rfl (.refl _)

/-- Loading: memory takes the record on disk, or knows nothing. -/
theorem openGate_shape {gateway : String} {disk disk' : Disk} {g : Gate} {outcome : LoadOutcome}
    (h : openGate (initialRecord gateway) disk outcome = some (disk', g)) :
    Shape disk' g none ∧ g.pending = 0 := by
  cases outcome with
  | failed created e =>
    simp only [openGate, Option.some.injEq, Prod.mk.injEq] at h
    obtain ⟨rfl, rfl⟩ := h
    exact ⟨.unloaded rfl rfl, rfl⟩
  | opened =>
    cases disk with
    | broken => simp [openGate] at h
    | missing =>
      simp only [openGate, Option.some.injEq, Prod.mk.injEq] at h
      obtain ⟨rfl, rfl⟩ := h
      exact ⟨.loaded (g := ⟨initialRecord gateway, 0, true, ""⟩) rfl, rfl⟩
    | stored r =>
      simp only [openGate] at h
      split at h
      · simp only [Option.some.injEq, Prod.mk.injEq] at h
        obtain ⟨rfl, rfl⟩ := h
        exact ⟨.loaded (g := ⟨r, 0, true, ""⟩) rfl, rfl⟩
      · simp only [Option.some.injEq, Prod.mk.injEq] at h
        obtain ⟨rfl, rfl⟩ := h
        exact ⟨.unloaded rfl rfl, rfl⟩

theorem openGate_stored {initial r : Record} {disk' : Disk} {g : Gate} {outcome : LoadOutcome}
    (h : openGate initial (.stored r) outcome = some (disk', g)) : disk' = .stored r := by
  cases outcome with
  | failed created e =>
    simp only [openGate, Option.some.injEq, Prod.mk.injEq] at h
    exact h.1.symm
  | opened =>
    simp only [openGate] at h
    split at h <;>
    · simp only [Option.some.injEq, Prod.mk.injEq] at h
      exact h.1.symm

/-! ## Accepted work -/

def admissions (ops : List Operation) : Nat := ops.countP (·.admission)

/-- Nothing accepted is outstanding. -/
def Idle (ops : List Operation) : Prop := ∀ op ∈ ops, op.admission = false ∧ op.port = none

/-- Dropping one of the held admissions. -/
theorem admissions_drop {ops : List Operation} {id : Nat} (hnodup : (ops.map (·.id)).Nodup)
    (h : (ops.any fun op => op.id == id && op.admission) = true) :
    admissions (ops.map fun op => if op.id = id then { op with admission := false } else op) + 1 =
      admissions ops := by
  induction ops with
  | nil => simp at h
  | cons op ops ih =>
    rw [List.map_cons, List.nodup_cons] at hnodup
    by_cases hid : op.id = id
    · have hrest : ∀ x ∈ ops, x.id ≠ id := by
        intro x hx heq
        exact hnodup.1 (List.mem_map.mpr ⟨x, hx, heq.trans hid.symm⟩)
      have hmap : (ops.map fun op => if op.id = id then { op with admission := false } else op) =
          ops := (List.map_congr_left fun x hx => if_neg (hrest x hx)).trans (List.map_id' ops)
      have hheld : op.admission = true := by
        rw [List.any_cons, Bool.or_eq_true] at h
        rcases h with h | h
        · simpa [hid] using h
        · obtain ⟨x, hx, hx'⟩ := List.any_eq_true.mp h
          exact absurd (by simpa using (Bool.and_eq_true_iff.mp hx').1) (hrest x hx)
      simp [admissions, hid, hmap, hheld]
    · have hany : (ops.any fun op => op.id == id && op.admission) = true := by
        simpa [hid] using h
      have ih := ih hnodup.2 hany
      simp only [admissions] at ih
      simp only [admissions, List.map_cons, if_neg hid, List.countP_cons]
      omega

theorem idle_of_counts {s : Sys} (hadmissions : admissions s.operations = 0)
    (hports : s.pendingPortOperations = 0) : Idle s.operations := by
  intro op hop
  have hnone : s.operations.filterMap (·.port) = [] :=
    (List.dedup_eq_nil _).mp (List.length_eq_zero_iff.mp hports)
  have hadm := List.countP_eq_zero.mp hadmissions op hop
  exact ⟨by simpa using hadm, List.filterMap_eq_nil_iff.mp hnone op hop⟩

/-- Work that holds no admission flags no further port. -/
theorem Idle.not_holds {s : Sys} (h : Idle s.operations) (id : Nat) : s.holds id = false := by
  rw [Sys.holds, List.any_eq_false]
  intro op hop
  simp [(h op hop).1]

theorem Idle.clear {ops : List Operation} (h : Idle ops) (id : Nat) :
    Idle (ops.map fun op => if op.id = id then { op with port := none } else op) := by
  intro op hop
  obtain ⟨x, hx, rfl⟩ := List.mem_map.mp hop
  have hx := h x hx
  split
  · exact ⟨hx.1, rfl⟩
  · exact hx

/-! ## The invariant -/

structure Inv (s : Sys) : Prop where
  shape : Shape s.disk s.gate s.transition
  counted : s.gate.pending = admissions s.operations
  fresh : ∀ op ∈ s.operations, op.id < s.accepted
  nodup : (s.operations.map (·.id)).Nodup
  /-- A `leave` that got to its save has found everything drained. -/
  drained : ∀ next, s.transition = some (.saving true next) → Idle s.operations

theorem inv_initial (gateway : String) : Inv (Sys.initial gateway) where
  shape := .unloaded rfl rfl
  counted := rfl
  fresh := by simp [Sys.initial]
  nodup := by simp [Sys.initial]
  drained := by simp [Sys.initial]

/-- What a step does to the disk and to the log. -/
inductive Effect (s s' : Sys) : Prop
  | quiet (hdisk : s'.disk = s.disk) (hlog : s'.log = s.log)
  | admitted (hopen : ¬s.gate.Blocked) (hdisk : s'.disk = s.disk)
      (hlog : s'.log = .admitted :: s.log)
  | entered (deployment : String) (token : Nat) (hfenced : s.disk.Fenced deployment token)
      (hdisk : s'.disk = s.disk) (hlog : s'.log = .entered deployment token :: s.log)
  /-- The first opening of the file. -/
  | started (hmissing : ∀ r, s.disk ≠ .stored r) (hlog : s'.log = s.log)
  | claimed (r next : Record) (hr : s.disk = .stored r) (hfollows : r.Follows next)
      (hactive : next.active = true) (hdisk : s'.disk = .stored next) (hlog : s'.log = s.log)
  | released (r : Record) (hr : s.disk = .stored r) (hactive : r.active = true)
      (hidle : Idle s.operations) (hdisk : s'.disk = .stored r.release)
      (hlog : s'.log = .released r.deploymentId r.fencingToken :: s.log)

/-! ## One lemma for each kind of step -/

section Steps

variable {s s' : Sys}

/-- Steps of an accepted operation change neither the record nor the transition. -/
theorem Inv.operations (hinv : Inv s) {gate : Gate} {ops : List Operation}
    (hrecord : gate.record = s.gate.record) (hdurable : gate.durable = s.gate.durable)
    (hcounted : gate.pending = admissions ops)
    (hids : ops.map (·.id) = s.operations.map (·.id))
    (hidle : Idle s.operations → Idle ops) :
    Inv { s with gate := gate, operations := ops } where
  shape := hinv.shape.congr hrecord hdurable
  counted := hcounted
  fresh := by
    intro op hop
    have hmem : op.id ∈ s.operations.map (·.id) := hids ▸ List.mem_map_of_mem hop
    obtain ⟨x, hx, hid⟩ := List.mem_map.mp hmem
    exact hid ▸ hinv.fresh x hx
  nodup := hids ▸ hinv.nodup
  drained := fun next h => hidle (hinv.drained next h)

theorem updateOperation_ids (id : Nat) {change : Operation → Operation}
    (hid : ∀ op, (change op).id = op.id) :
    (s.updateOperation id change).operations.map (·.id) = s.operations.map (·.id) := by
  rw [Sys.updateOperation, List.map_map]
  apply List.map_congr_left
  intro op _
  simp only [Function.comp]
  split
  · exact hid op
  · rfl

/-- A change of an operation that keeps its admission. -/
theorem Inv.updateOperation (hinv : Inv s) (id : Nat) {change : Operation → Operation}
    (hkeeps : ∀ op, (change op).id = op.id ∧ (change op).admission = op.admission)
    (hidle : Idle s.operations → Idle (s.updateOperation id change).operations) :
    Inv (s.updateOperation id change) := by
  have hcount : admissions (s.updateOperation id change).operations = admissions s.operations := by
    rw [Sys.updateOperation, admissions, List.countP_map, admissions]
    apply List.countP_congr
    intro op _
    simp only [Function.comp]
    split
    · rw [(hkeeps op).2]
    · rfl
  exact hinv.operations rfl rfl (hinv.counted.trans hcount.symm)
    (updateOperation_ids id fun op => (hkeeps op).1) hidle

theorem step_takeAdmission (hinv : Inv s) (h : step s .takeAdmission = some s') :
    Inv s' ∧ Effect s s' := by
  unfold step at h
  dsimp only at h
  generalize hgate : s.gate.takeAdmission = outcome at h
  cases outcome with
  | error e =>
    obtain rfl : s = s' := by simpa using h
    exact ⟨hinv, .quiet rfl rfl⟩
  | ok gate =>
    obtain ⟨hopen, rfl⟩ := Gate.takeAdmission_eq_ok hgate
    simp only [Option.some.injEq] at h
    subst h
    refine ⟨?_, .admitted hopen rfl rfl⟩
    refine ⟨hinv.shape.congr rfl rfl, ?_, ?_, ?_, ?_⟩
    · simp [Sys.note, admissions, hinv.counted]
    · intro op hop
      rcases List.mem_cons.mp hop with rfl | hop
      · exact Nat.lt_succ_self _
      · exact Nat.lt_succ_of_lt (hinv.fresh op hop)
    · refine List.nodup_cons.mpr ⟨?_, hinv.nodup⟩
      intro hmem
      obtain ⟨op, hop, hid⟩ := List.mem_map.mp hmem
      have := hinv.fresh op hop
      simp only at hid
      omega
    · intro next hnext
      -- While a `leave` saves, the record is active and nothing is admitted.
      have hshape := hinv.shape
      rw [show s.transition = some (.saving true next) from hnext] at hshape
      exact absurd (.inl hshape.active) hopen

theorem step_operation (hinv : Inv s) {a : Action}
    (ha : (∃ id, a = .dropAdmission id) ∨ (∃ id port, a = .flagPort id port) ∨
      ∃ id, a = .clearPort id) (h : step s a = some s') :
    Inv s' ∧ Effect s s' ∧ (Idle s.operations → Idle s'.operations) := by
  obtain ⟨id, rfl⟩ | ⟨id, port, rfl⟩ | ⟨id, rfl⟩ := ha
  · unfold step at h
    dsimp only at h
    split at h
    · rename_i hholds
      simp only [Option.some.injEq] at h
      subst h
      have hidle : Idle s.operations → Idle (s.updateOperation id fun op =>
          { op with admission := false }).operations := by
        intro hidle
        rw [hidle.not_holds id] at hholds
        cases hholds
      refine ⟨hinv.operations rfl rfl ?_ (updateOperation_ids id fun _ => rfl) hidle,
        .quiet rfl rfl, hidle⟩
      have hdrop := admissions_drop hinv.nodup hholds
      have hcounted := hinv.counted
      simp only [Sys.updateOperation]
      omega
    · cases h
  · unfold step at h
    dsimp only at h
    split at h
    · rename_i hholds
      simp only [Option.some.injEq] at h
      subst h
      have hidle : Idle s.operations → Idle (s.updateOperation id fun op =>
          { op with port := some port }).operations := by
        intro hidle
        rw [hidle.not_holds id] at hholds
        cases hholds
      exact ⟨hinv.updateOperation id (fun _ => ⟨rfl, rfl⟩) hidle, .quiet rfl rfl, hidle⟩
    · cases h
  · unfold step at h
    simp only [Option.some.injEq] at h
    subst h
    have hidle : Idle s.operations → Idle (s.updateOperation id fun op =>
        { op with port := none }).operations := fun hidle => hidle.clear id
    exact ⟨hinv.updateOperation id (fun _ => ⟨rfl, rfl⟩) hidle, .quiet rfl rfl, hidle⟩

/-- A call that returned without a save. -/
theorem Inv.decide_done (hinv : Inv s) {leaving : Bool} {deployment : String} {token : Nat}
    {result : Except OperationError Unit}
    (hentered : leaving = false → result = .ok () → s.disk.Fenced deployment token) :
    let s' := s.decide leaving deployment token (.done result)
    Inv s' ∧ Effect s s' ∧ s'.operations = s.operations := by
  cases result with
  | error e => exact ⟨hinv, .quiet rfl rfl, rfl⟩
  | ok u =>
    cases leaving with
    | true => exact ⟨hinv, .quiet rfl rfl, rfl⟩
    | false =>
      refine ⟨⟨hinv.shape, hinv.counted, hinv.fresh, hinv.nodup, hinv.drained⟩,
        .entered deployment token (hentered rfl rfl) rfl rfl, rfl⟩

theorem step_enter (hinv : Inv s) {deployment : String} {token : Nat}
    (h : step s (.enter deployment token) = some s') :
    Inv s' ∧ Effect s s' ∧ s'.operations = s.operations := by
  unfold step at h
  dsimp only at h
  split at h
  · cases h
  · rename_i hfree
    have hnone : s.transition = none := by simpa using hfree
    have hshape : Shape s.disk s.gate none := hnone ▸ hinv.shape
    generalize hd : s.gate.enter deployment token = decision at h
    simp only [Option.some.injEq] at h
    subst h
    cases decision with
    | done result =>
      refine hinv.decide_done fun _ hok => ?_
      rw [hok] at hd
      obtain ⟨hdurable, hactive, howner⟩ := Gate.enter_eq_ok hd
      generalize hdisk : s.disk = disk at hshape
      cases hshape with
      | unloaded hi _ => simp [hactive] at hi
      | unconfirmed _ hd _ => simp [hdurable] at hd
      | loaded _ => exact ⟨s.gate.record, rfl, hactive, howner⟩
    | save gate next =>
      have hnext := hshape.enter hd
      obtain ⟨rfl, -⟩ := Gate.enter_eq_save hd
      refine ⟨⟨hnext, hinv.counted, hinv.fresh, hinv.nodup, ?_⟩, .quiet rfl rfl, rfl⟩
      intro r hr
      simp [Sys.decide] at hr

theorem step_leave (hinv : Inv s) {deployment : String} {token : Nat}
    (h : step s (.leave deployment token) = some s') :
    Inv s' ∧ Effect s s' ∧ s'.operations = s.operations := by
  unfold step at h
  dsimp only at h
  split at h
  · cases h
  · rename_i hfree
    have hnone : s.transition = none := by simpa using hfree
    have hshape : Shape s.disk s.gate none := hnone ▸ hinv.shape
    generalize hd : s.gate.leave deployment token s.pendingPortOperations = decision at h
    simp only [Option.some.injEq] at h
    subst h
    cases decision with
    | done result => exact hinv.decide_done (by simp)
    | save gate next =>
      have hnext := hshape.leave hd
      obtain ⟨rfl, -, -, -, hpending, hports⟩ := Gate.leave_eq_save hd
      have hidle := idle_of_counts (hinv.counted.symm.trans hpending) hports
      exact ⟨⟨hnext, hinv.counted, hinv.fresh, hinv.nodup, fun _ _ => hidle⟩, .quiet rfl rfl, rfl⟩

/-- The commit of a save: a claim of the fence, or its release. -/
theorem Inv.commit (hinv : Inv s) {leaving : Bool} {next : Record} {result : Except String Unit}
    (hsaving : s.transition = some (.saving leaving next))
    (h : s.commit leaving next result = some s') :
    Inv s' ∧ Effect s s' ∧ s'.operations = s.operations := by
  have hshape : Shape s.disk s.gate (some (.saving leaving next)) := hsaving ▸ hinv.shape
  rw [Sys.commit] at h
  generalize hdisk : s.disk = disk at h hshape
  cases disk with
  | missing => cases h
  | broken => cases h
  | stored r =>
    have hcommit : Shape (.stored next) s.gate (some (.saved leaving next result)) := hshape.commit
    cases leaving with
    | false =>
      simp only [Bool.false_eq_true, if_false, Option.some.injEq] at h
      subst h
      cases hshape with
      | entering hactive hdurable hfollows =>
        exact ⟨⟨hcommit, hinv.counted, hinv.fresh, hinv.nodup, by simp⟩,
          .claimed r s.gate.record hdisk hfollows hactive rfl rfl, rfl⟩
    | true =>
      simp only [if_true, Option.some.injEq] at h
      subst h
      have hidle := hinv.drained next hsaving
      cases hshape with
      | leaving hactive hdurable =>
        exact ⟨⟨hcommit, hinv.counted, hinv.fresh, hinv.nodup, by simp [Sys.note]⟩,
          .released s.gate.record hdisk hactive hidle rfl rfl, rfl⟩

theorem step_save (hinv : Inv s) {outcome : SaveOutcome}
    (h : step s (.save outcome) = some s') :
    Inv s' ∧ Effect s s' ∧ s'.operations = s.operations := by
  unfold step at h
  dsimp only at h
  generalize hp : s.transition = phase at h
  cases phase with
  | none => simp at h
  | some p =>
    cases p with
    | saved leaving next result => simp at h
    | saving leaving next =>
      cases outcome with
      | committed => exact hinv.commit hp h
      | failed committed e =>
        cases committed with
        | true => exact hinv.commit hp h
        | false =>
          simp only [Option.some.injEq] at h
          subst h
          have hshape : Shape s.disk s.gate (some (.saving leaving next)) := hp ▸ hinv.shape
          exact ⟨⟨hshape.failed, hinv.counted, hinv.fresh, hinv.nodup, by simp⟩,
            .quiet rfl rfl, rfl⟩

theorem step_settle (hinv : Inv s) (h : step s .settle = some s') :
    Inv s' ∧ Effect s s' ∧ s'.operations = s.operations := by
  unfold step at h
  dsimp only at h
  generalize hp : s.transition = phase at h
  cases phase with
  | none => simp at h
  | some p =>
    cases p with
    | saving leaving next => simp at h
    | saved leaving next result =>
      simp only [Option.some.injEq] at h
      have hshape : Shape s.disk s.gate (some (.saved leaving next result)) := hp ▸ hinv.shape
      have hpending : (s.gate.settle next result).pending = s.gate.pending := by
        cases result <;> rfl
      have hinv' : Inv { s with gate := s.gate.settle next result, transition := none } :=
        ⟨hshape.settle, hpending.trans hinv.counted, hinv.fresh, hinv.nodup, by simp⟩
      split at h
      · rename_i hentered
        subst h
        refine ⟨⟨hinv'.shape, hinv'.counted, hinv'.fresh, hinv'.nodup, hinv'.drained⟩,
          .entered next.deploymentId next.fencingToken ?_ rfl rfl, rfl⟩
        obtain ⟨hok, hleaving⟩ := Bool.and_eq_true_iff.mp hentered
        cases result with
        | error e => cases hok
        | ok u =>
          cases leaving with
          | true => cases hleaving
          | false =>
            generalize s.disk = disk at hshape
            cases hshape with
            | entered hactive _ => exact ⟨s.gate.record, rfl, hactive, rfl, rfl⟩
      · subst h
        exact ⟨hinv', .quiet rfl rfl, rfl⟩

theorem step_restart {outcome : LoadOutcome}
    (h : step s (.restart outcome) = some s') :
    Inv s' ∧ Effect s s' ∧ s'.operations = [] := by
  unfold step at h
  simp only [Option.map_eq_some_iff] at h
  obtain ⟨⟨disk, gate⟩, hopen, rfl⟩ := h
  obtain ⟨hshape, hpending⟩ := openGate_shape hopen
  refine ⟨⟨hshape, hpending, by simp, by simp, by simp⟩, ?_, rfl⟩
  by_cases hstored : ∃ r, s.disk = .stored r
  · obtain ⟨r, hr⟩ := hstored
    rw [hr] at hopen
    exact .quiet ((openGate_stored hopen).trans hr.symm) rfl
  · exact .started (fun r hr => hstored ⟨r, hr⟩) rfl

theorem step_inv_effect (hinv : Inv s) {a : Action} (h : step s a = some s') :
    Inv s' ∧ Effect s s' := by
  cases a with
  | takeAdmission => exact step_takeAdmission hinv h
  | dropAdmission id => exact (step_operation hinv (.inl ⟨id, rfl⟩) h).imp_right And.left
  | flagPort id port =>
    exact (step_operation hinv (.inr (.inl ⟨id, port, rfl⟩)) h).imp_right And.left
  | clearPort id => exact (step_operation hinv (.inr (.inr ⟨id, rfl⟩)) h).imp_right And.left
  | enter deployment token => exact (step_enter hinv h).imp_right And.left
  | leave deployment token => exact (step_leave hinv h).imp_right And.left
  | save outcome => exact (step_save hinv h).imp_right And.left
  | settle => exact (step_settle hinv h).imp_right And.left
  | restart outcome => exact (step_restart h).imp_right And.left

/-- Behind a blocked gate accepted work only disappears. -/
theorem step_idle (hinv : Inv s) {a : Action} (h : step s a = some s') (hblocked : s.gate.Blocked)
    (hidle : Idle s.operations) : Idle s'.operations := by
  cases a with
  | takeAdmission =>
    unfold step at h
    dsimp only at h
    generalize hgate : s.gate.takeAdmission = outcome at h
    cases outcome with
    | error e =>
      obtain rfl : s = s' := by simpa using h
      exact hidle
    | ok gate => exact absurd hblocked (Gate.takeAdmission_eq_ok hgate).1
  | dropAdmission id => exact (step_operation hinv (.inl ⟨id, rfl⟩) h).2.2 hidle
  | flagPort id port => exact (step_operation hinv (.inr (.inl ⟨id, port, rfl⟩)) h).2.2 hidle
  | clearPort id => exact (step_operation hinv (.inr (.inr ⟨id, rfl⟩)) h).2.2 hidle
  | enter deployment token => exact (step_enter hinv h).2.2 ▸ hidle
  | leave deployment token => exact (step_leave hinv h).2.2 ▸ hidle
  | save outcome => exact (step_save hinv h).2.2 ▸ hidle
  | settle => exact (step_settle hinv h).2.2 ▸ hidle
  | restart outcome => exact (step_restart h).2.2 ▸ fun op hop => by simp at hop

/-- The fence on disk ends with the release of its own owner only. -/
theorem Effect.fenced (h : Effect s s') {deployment : String} {token : Nat}
    (hf : s.disk.Fenced deployment token) :
    s'.disk.Fenced deployment token ∨ s'.log = .released deployment token :: s.log := by
  obtain ⟨r, hr, hactive, rfl, rfl⟩ := hf
  cases h with
  | quiet hdisk _ => exact .inl ⟨r, hdisk.trans hr, hactive, rfl, rfl⟩
  | admitted _ hdisk _ => exact .inl ⟨r, hdisk.trans hr, hactive, rfl, rfl⟩
  | entered _ _ _ hdisk _ => exact .inl ⟨r, hdisk.trans hr, hactive, rfl, rfl⟩
  | started hmissing _ => exact absurd hr (hmissing r)
  | claimed r' next hr' hfollows hnext hdisk _ =>
    obtain rfl : r' = r := by simpa [hr'] using hr
    obtain ⟨hdeployment, htoken⟩ := hfollows.owner hactive
    exact .inl ⟨next, hdisk, hnext, hdeployment, htoken⟩
  | released r' hr' _ _ _ hlog =>
    obtain rfl : r' = r := by simpa [hr'] using hr
    exact .inr hlog

/-- The log grows by at most one event a step. -/
theorem Effect.log (h : Effect s s') : s'.log = s.log ∨ ∃ e, s'.log = e :: s.log := by
  cases h with
  | quiet _ hlog => exact .inl hlog
  | admitted _ _ hlog => exact .inr ⟨_, hlog⟩
  | entered _ _ _ _ hlog => exact .inr ⟨_, hlog⟩
  | started _ hlog => exact .inl hlog
  | claimed _ _ _ _ _ _ hlog => exact .inl hlog
  | released _ _ _ _ _ hlog => exact .inr ⟨_, hlog⟩

theorem Effect.follows (h : Effect s s') {r : Record} (hr : s.disk = .stored r) :
    ∃ next, s'.disk = .stored next ∧ r.Follows next := by
  cases h with
  | quiet hdisk _ => exact ⟨r, hdisk.trans hr, .refl r⟩
  | admitted _ hdisk _ => exact ⟨r, hdisk.trans hr, .refl r⟩
  | entered _ _ _ hdisk _ => exact ⟨r, hdisk.trans hr, .refl r⟩
  | started hmissing _ => exact absurd hr (hmissing r)
  | claimed r' next hr' hfollows _ hdisk _ =>
    obtain rfl : r' = r := by simpa [hr'] using hr
    exact ⟨next, hdisk, hfollows⟩
  | released r' hr' _ _ hdisk _ =>
    obtain rfl : r' = r := by simpa [hr'] using hr
    exact ⟨r'.release, hdisk, .inl ⟨rfl, rfl⟩⟩

end Steps

/-! ## Runs -/

/-- Every acknowledged fence that was not released stands on disk, and nothing was admitted
since. -/
def LogFenced (s : Sys) : Prop :=
  ∀ deployment token later earlier, s.log = later ++ .entered deployment token :: earlier →
    .released deployment token ∉ later →
      s.disk.Fenced deployment token ∧ .admitted ∉ later

theorem step_logFenced {s s' : Sys} {a : Action} (hinv : Inv s) (hlog : LogFenced s)
    (h : step s a = some s') : LogFenced s' := by
  obtain ⟨-, heffect⟩ := step_inv_effect hinv h
  intro deployment token later earlier heq hkept
  rcases heffect.log with hsame | ⟨e, he⟩
  · obtain ⟨hf, hadm⟩ := hlog deployment token later earlier (hsame ▸ heq) hkept
    refine ⟨?_, hadm⟩
    rcases heffect.fenced hf with hf | hrel
    · exact hf
    · rw [hsame] at hrel
      exact absurd hrel (List.ne_cons_self)
  · rw [he] at heq
    cases later with
    | nil =>
      -- The event of this step is the acknowledgement itself.
      obtain ⟨rfl, rfl⟩ : e = .entered deployment token ∧ s.log = earlier := by simpa using heq
      refine ⟨?_, List.not_mem_nil⟩
      cases heffect with
      | quiet _ hl => simp [hl] at he
      | admitted _ _ hl => simp [hl] at he
      | entered d t hf hdisk hl =>
        obtain ⟨rfl, rfl⟩ : d = deployment ∧ t = token := by simpa [hl] using he
        exact hdisk ▸ hf
      | started _ hl => simp [hl] at he
      | claimed _ _ _ _ _ _ hl => simp [hl] at he
      | released _ _ _ _ _ hl => simp [hl] at he
    | cons e' later =>
      obtain ⟨rfl, hrest⟩ : e = e' ∧ s.log = later ++ .entered deployment token :: earlier := by
        simpa using heq
      rw [List.mem_cons, not_or] at hkept
      obtain ⟨hne, hkept⟩ := hkept
      obtain ⟨hf, hadm⟩ := hlog deployment token later earlier hrest hkept
      refine ⟨?_, List.not_mem_cons_of_ne_of_not_mem ?_ hadm⟩
      · rcases heffect.fenced hf with hf | hrel
        · exact hf
        · rw [he] at hrel
          exact absurd (List.cons.inj hrel).1.symm hne
      · rintro rfl
        have hblocked := hinv.shape.blocked hf
        cases heffect with
        | quiet _ hl => simp [hl] at he
        | admitted hopen _ _ => exact hopen hblocked
        | entered d t _ _ hl => simp [hl] at he
        | started _ hl => simp [hl] at he
        | claimed _ _ _ _ _ _ hl => simp [hl] at he
        | released _ _ _ _ _ hl => simp [hl] at he

theorem run_log {s s' : Sys} {as : List Action} (hinv : Inv s) (h : exec step s as = some s') :
    ∃ later, s'.log = later ++ s.log := by
  induction as generalizing s with
  | nil =>
    obtain rfl : s = s' := by simpa [exec] using h
    exact ⟨[], rfl⟩
  | cons a as ih =>
    obtain ⟨mid, hmid, h⟩ := exec_cons.mp h
    obtain ⟨hinv', heffect⟩ := step_inv_effect hinv hmid
    obtain ⟨later, hlater⟩ := ih hinv' h
    rcases heffect.log with hsame | ⟨e, he⟩
    · exact ⟨later, hsame ▸ hlater⟩
    · exact ⟨later ++ [e], by simp [hlater, he]⟩

/-- Drained work stays drained as long as the fence stands. -/
theorem run_idle {s s' : Sys} {as : List Action} (hinv : Inv s) {deployment : String} {token : Nat}
    (hf : s.disk.Fenced deployment token) (hidle : Idle s.operations)
    (h : exec step s as = some s') {later : List Event} (hlog : s'.log = later ++ s.log)
    (hkept : .released deployment token ∉ later) : Idle s'.operations := by
  induction as generalizing s later with
  | nil =>
    obtain rfl : s = s' := by simpa [exec] using h
    exact hidle
  | cons a as ih =>
    obtain ⟨mid, hmid, h⟩ := exec_cons.mp h
    obtain ⟨hinv', heffect⟩ := step_inv_effect hinv hmid
    have hidle' := step_idle hinv hmid (hinv.shape.blocked hf) hidle
    obtain ⟨rest, hrest⟩ := run_log hinv' h
    obtain ⟨new, hnew⟩ : ∃ new, mid.log = new ++ s.log := by
      rcases heffect.log with hsame | ⟨e, he⟩
      · exact ⟨[], hsame⟩
      · exact ⟨[e], he⟩
    have hsplit : later = rest ++ new := by
      rw [hrest, hnew, ← List.append_assoc] at hlog
      exact (List.append_cancel_right hlog).symm
    subst hsplit
    rw [List.mem_append, not_or] at hkept
    rcases heffect.fenced hf with hf' | hrel
    · exact ih hinv' hf' hidle' h hrest hkept.1
    · rw [hnew] at hrel
      have hnew' : new = [.released deployment token] :=
        List.append_cancel_right (show new ++ s.log = [.released deployment token] ++ s.log from hrel)
      exact absurd (hnew' ▸ List.mem_singleton.mpr rfl) hkept.2

/-- The records on disk follow one another. -/
theorem run_token_le {s s' : Sys} {as : List Action} (hinv : Inv s) {r : Record}
    (hr : s.disk = .stored r) (h : exec step s as = some s') :
    ∃ r', s'.disk = .stored r' ∧ r.fencingToken ≤ r'.fencingToken := by
  induction as generalizing s r with
  | nil =>
    obtain rfl : s = s' := by simpa [exec] using h
    exact ⟨r, hr, Nat.le_refl _⟩
  | cons a as ih =>
    obtain ⟨mid, hmid, h⟩ := exec_cons.mp h
    obtain ⟨hinv', heffect⟩ := step_inv_effect hinv hmid
    obtain ⟨next, hnext, hfollows⟩ := heffect.follows hr
    obtain ⟨r', hr', hle⟩ := ih hinv' hnext h
    exact ⟨r', hr', Nat.le_trans hfollows.token_le hle⟩

theorem run_inv {gateway : String} {as : List Action} {s : Sys}
    (h : exec step (Sys.initial gateway) as = some s) : Inv s ∧ LogFenced s := by
  refine exec_invariant (fun s => Inv s ∧ LogFenced s) ?_ ?_ h
  · intro s a s' hs hstep
    exact ⟨(step_inv_effect hs.1 hstep).1, step_logFenced hs.1 hs.2 hstep⟩
  · exact ⟨inv_initial gateway, by intro d t later earlier heq; simp [Sys.initial] at heq⟩

/-- A gate that reports itself durable reports the owner on disk. -/
theorem Shape.durable {disk : Disk} {g : Gate} {p : Option Phase} (h : Shape disk g p)
    (hdurable : g.durable = true) :
    ∃ r, disk = .stored r ∧ r.deploymentId = g.record.deploymentId ∧
      r.fencingToken = g.record.fencingToken ∧
      (r = g.record ∨ ∃ result, p = some (.saved true r result)) := by
  cases h with
  | unloaded _ hd => simp [hdurable] at hd
  | loaded _ => exact ⟨g.record, rfl, rfl, rfl, .inl rfl⟩
  | unconfirmed _ hd _ => simp [hdurable] at hd
  | entering _ hd _ => simp [hdurable] at hd
  | entered _ hd => simp [hdurable] at hd
  | notEntered _ hd _ => simp [hdurable] at hd
  | leaving _ _ => exact ⟨g.record, rfl, rfl, rfl, .inl rfl⟩
  | left _ _ => exact ⟨g.record.release, rfl, rfl, rfl, .inr ⟨_, rfl⟩⟩
  | notLeft _ _ => exact ⟨g.record, rfl, rfl, rfl, .inl rfl⟩

/-- In every run: an acknowledged fence admits nothing before its owner's release has
committed; a release commits with no accepted work outstanding; from a snapshot that reports
`drained` on, up to the commit of the release, no work is outstanding; the records on disk keep
their owner or pass to the next token; and a durable gate reports the owner on disk. -/
theorem maintenance_fence {gateway : String} {as : List Action} {s : Sys}
    (h : exec step (Sys.initial gateway) as = some s) :
    (∀ deployment token later earlier, s.log = later ++ .entered deployment token :: earlier →
      .released deployment token ∉ later →
        .admitted ∉ later ∧ ∃ e, s.gate.takeAdmission = .error e) ∧
    (∀ a s' deployment token, step s a = some s' →
      s'.log = .released deployment token :: s.log → Idle s.operations) ∧
    (∀ status, status = s.gate.snapshot s.pendingPortOperations → status.drained = true →
      (∃ next result, s.transition = some (.saved true next result) ∧ s.disk = .stored next) ∨
      ∀ bs s' later, exec step s bs = some s' → s'.log = later ++ s.log →
        .released status.deploymentId status.fencingToken ∉ later → Idle s'.operations) ∧
    (∀ a s' r, step s a = some s' → s.disk = .stored r →
      ∃ next, s'.disk = .stored next ∧ r.Follows next) ∧
    (∀ bs s' r, exec step s bs = some s' → s.disk = .stored r →
      ∃ r', s'.disk = .stored r' ∧ r.fencingToken ≤ r'.fencingToken) ∧
    (s.gate.durable = true → ∃ r, s.disk = .stored r ∧
      r.deploymentId = s.gate.record.deploymentId ∧
      r.fencingToken = s.gate.record.fencingToken) := by
  obtain ⟨hinv, hlog⟩ := run_inv h
  refine ⟨?_, ?_, ?_, ?_, ?_, ?_⟩
  · intro deployment token later earlier heq hkept
    obtain ⟨hf, hadm⟩ := hlog deployment token later earlier heq hkept
    have hblocked := hinv.shape.blocked hf
    refine ⟨hadm, ?_⟩
    cases hgate : s.gate.takeAdmission with
    | error e => exact ⟨e, rfl⟩
    | ok g => exact absurd hblocked (Gate.takeAdmission_eq_ok hgate).1
  · intro a s' deployment token hstep hrel
    cases (step_inv_effect hinv hstep).2 with
    | quiet _ hl => simp [hl] at hrel
    | admitted _ _ hl => simp [hl] at hrel
    | entered _ _ _ _ hl => simp [hl] at hrel
    | started _ hl => simp [hl] at hrel
    | claimed _ _ _ _ _ _ hl => simp [hl] at hrel
    | released _ _ _ hidle _ _ => exact hidle
  · rintro status rfl hdrained
    simp only [Gate.snapshot, Bool.and_eq_true, beq_iff_eq] at hdrained
    obtain ⟨⟨⟨hactive, hdurable⟩, hpending⟩, hports⟩ := hdrained
    have hidle := idle_of_counts (hinv.counted.symm.trans hpending) hports
    obtain ⟨r, hr, -, -, rfl | ⟨result, hp⟩⟩ := hinv.shape.durable hdurable
    · right
      intro bs s' later hrun hlater hkept
      exact run_idle hinv ⟨_, hr, hactive, rfl, rfl⟩ hidle hrun hlater hkept
    · exact .inl ⟨r, result, hp, hr⟩
  · intro a s' r hstep hr
    exact (step_inv_effect hinv hstep).2.follows hr
  · intro bs s' r hrun hr
    exact run_token_le hinv hr hrun
  · intro hdurable
    obtain ⟨r, hr, hdeployment, htoken, -⟩ := hinv.shape.durable hdurable
    exact ⟨r, hr, hdeployment, htoken⟩

/-- A fence that was entered and drained: an admission is refused. -/
def drainedRun : List Action :=
  [.restart .opened, .takeAdmission, .enter "job" 1, .save .committed, .settle, .dropAdmission 0,
    .takeAdmission]

theorem maintenance_fence_drained :
    ∃ s, exec step (Sys.initial "gateway") drainedRun = some s ∧
      s.log = [.entered "job" 1, .admitted] ∧
      (s.gate.snapshot s.pendingPortOperations).drained = true ∧
      ∃ e, s.gate.takeAdmission = .error e := by
  have hrun : exec step (Sys.initial "gateway") drainedRun = some
      { gateway := "gateway"
        disk := .stored ⟨1, "gateway", 1, "job", true⟩
        gate := ⟨⟨1, "gateway", 1, "job", true⟩, 0, true, ""⟩
        transition := none
        operations := [⟨0, false, none⟩]
        accepted := 1
        log := [.entered "job" 1, .admitted] } := by
    decide +kernel
  refine ⟨_, hrun, rfl, by decide +kernel, ?_⟩
  exact ((maintenance_fence hrun).1 "job" 1 [] [.admitted] rfl (by simp)).2

/-- The token of an `enter` whose save failed is given up by a restart. -/
theorem unconfirmed_token_lost :
    ∃ s s', exec step (Sys.initial "gateway")
        [.restart .opened, .enter "job" 1, .save (.failed false "disk full"), .settle] = some s ∧
      exec step s [.restart .opened] = some s' ∧
      (s.gate.snapshot 0).fencingToken = 1 ∧ (s'.gate.snapshot 0).fencingToken = 0 := by
  have hrun : exec step (Sys.initial "gateway")
      [.restart .opened, .enter "job" 1, .save (.failed false "disk full"), .settle] = some
      { gateway := "gateway"
        disk := .stored (initialRecord "gateway")
        gate := ⟨⟨1, "gateway", 1, "job", true⟩, 0, false, "disk full"⟩
        transition := none
        operations := []
        accepted := 0
        log := [] } := by
    decide +kernel
  refine ⟨_, _, hrun, rfl, rfl, rfl⟩

end RcdServer.Operations.Maintenance
