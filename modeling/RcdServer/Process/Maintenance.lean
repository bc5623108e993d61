import Mathlib.Algebra.Group.Nat.Defs
import RcdServer.Lib.Maps

/-!
# Maintenance of a source

The `maintenanceService` of `maintenance_service.go`: leases of mutations, durable process fences
and the process calls that are executing. Every operation is one critical section of its mutex. As
in the source, an entry that is missing and an empty request are the same.
-/
namespace RcdServer.Process

open Lib

structure Maintenance where
  next : Nat
  mutations : Map String Nat
  fences : Map String String
  executing : Map String String
  deriving DecidableEq

namespace Maintenance

def initial : Maintenance := ⟨0, ∅, ∅, ∅⟩

/-- `pending`: the request that fences the source, or an empty one. -/
def fence (m : Maintenance) (source : String) : String := (m.fences.lookup source).getD ""

def executes (m : Maintenance) (source : String) : String := (m.executing.lookup source).getD ""

def mutation (m : Maintenance) (source : String) : Nat := (m.mutations.lookup source).getD 0

inductive Busy where
  | process
  | mutation
  deriving DecidableEq

def check (m : Maintenance) (source : String) (processOnly : Bool) : Except Busy Unit :=
  if m.fence source ≠ "" ∨ m.executes source ≠ "" then .error .process
  else if !processOnly ∧ m.mutation source ≠ 0 then .error .mutation
  else .ok ()

def beginMutation (m : Maintenance) (source : String) : Except Busy (Maintenance × Nat) :=
  match m.check source false with
  | .error e => .error e
  | .ok () =>
    -- The lease zero stands for none.
    let next := (m.next + 1) % 2 ^ 64
    let next := if next = 0 then 1 else next
    .ok ({ m with next := next, mutations := m.mutations.insert source next }, next)

def endMutation (m : Maintenance) (source : String) (lease : Nat) : Maintenance :=
  if m.mutation source = lease then { m with mutations := m.mutations.erase source } else m

def beginProcess (m : Maintenance) (source request : String) : Except Busy Maintenance :=
  match m.check source false with
  | .error e => .error e
  | .ok () =>
    .ok { m with
      fences := m.fences.insert source request
      executing := m.executing.insert source request }

def releaseFence (m : Maintenance) (source request : String) : Maintenance :=
  if m.fence source = request then { m with fences := m.fences.erase source } else m

def endExecution (m : Maintenance) (source request : String) : Maintenance :=
  if m.executes source = request then { m with executing := m.executing.erase source } else m

def tryReconcile (m : Maintenance) (source request : String) : Option Maintenance :=
  if m.executes source ≠ "" ∨ m.mutation source ≠ 0 then none
  else if m.fence source ≠ "" ∧ m.fence source ≠ request then none
  else some { m with executing := m.executing.insert source request }

def restoreFence (m : Maintenance) (source request : String) : Except Busy Maintenance :=
  if m.fence source ≠ "" ∧ m.fence source ≠ request then .error .process
  else .ok { m with fences := m.fences.insert source request }

/-! ## Fences and executions after each operation -/

variable {m m' : Maintenance} {source request : String}

theorem check_eq_ok {processOnly : Bool} (h : m.check source processOnly = .ok ()) :
    m.fence source = "" ∧ m.executes source = "" := by
  unfold check at h
  split at h
  · cases h
  · rename_i hbusy
    simpa using hbusy

/-- A mutation changes neither fences nor executions. -/
theorem beginMutation_frame {out : Maintenance × Nat} (h : m.beginMutation source = .ok out) :
    out.1.fences = m.fences ∧ out.1.executing = m.executing := by
  unfold beginMutation at h
  split at h
  · cases h
  · cases h
    exact ⟨rfl, rfl⟩

theorem endMutation_frame (lease : Nat) :
    (m.endMutation source lease).fences = m.fences ∧
      (m.endMutation source lease).executing = m.executing := by
  unfold endMutation
  split <;> exact ⟨rfl, rfl⟩

theorem fence_congr (h : m'.fences = m.fences) (source' : String) :
    m'.fence source' = m.fence source' := by
  rw [fence, h, fence]

theorem executes_congr (h : m'.executing = m.executing) (source' : String) :
    m'.executes source' = m.executes source' := by
  rw [executes, h, executes]

theorem beginProcess_eq_ok (h : m.beginProcess source request = .ok m') :
    m.fence source = "" ∧ m.executes source = "" ∧
      (∀ source', m'.fence source' = if source' = source then request else m.fence source') ∧
      ∀ source', m'.executes source' = if source' = source then request else m.executes source' := by
  unfold beginProcess at h
  cases hcheck : m.check source false with
  | error e => simp [hcheck] at h
  | ok _ =>
    simp only [hcheck, Except.ok.injEq] at h
    subst h
    refine ⟨(check_eq_ok hcheck).1, (check_eq_ok hcheck).2, fun source' => ?_, fun source' => ?_⟩
    · simp only [fence, Map.lookup_insert_eq]
      split <;> rfl
    · simp only [executes, Map.lookup_insert_eq]
      split <;> rfl

theorem releaseFence_fence (source' : String) :
    (m.releaseFence source request).fence source' =
      if m.fence source = request ∧ source' = source then "" else m.fence source' := by
  unfold releaseFence
  by_cases hown : m.fence source = request
  · rw [if_pos hown]
    simp only [fence, Map.lookup_erase_eq] at hown ⊢
    by_cases hsource : source' = source
    · simp [hown, hsource]
    · simp [hsource]
  · simp [hown]

@[simp] theorem releaseFence_executes (source' : String) :
    (m.releaseFence source request).executes source' = m.executes source' := by
  unfold releaseFence
  split <;> rfl

@[simp] theorem endExecution_fence (source' : String) :
    (m.endExecution source request).fence source' = m.fence source' := by
  unfold endExecution
  split <;> rfl

/-- The executions of the other sources go on. -/
theorem endExecution_executes {source' : String} (h : source' ≠ source) :
    (m.endExecution source request).executes source' = m.executes source' := by
  unfold endExecution
  split
  · simp only [executes, Map.lookup_erase_eq, if_neg h]
  · rfl

theorem tryReconcile_eq_some (h : m.tryReconcile source request = some m') :
    m.executes source = "" ∧ m'.fences = m.fences ∧
      ∀ source', m'.executes source' = if source' = source then request else m.executes source' := by
  unfold tryReconcile at h
  split at h
  · cases h
  rename_i hidle
  split at h
  · cases h
  simp only [not_or, not_not] at hidle
  cases h
  refine ⟨hidle.1, rfl, fun source' => ?_⟩
  simp only [executes, Map.lookup_insert_eq]
  split <;> rfl

/-- A fence of the source is the restored one, or there was none. -/
theorem restoreFence_eq_ok (h : m.restoreFence source request = .ok m') :
    (m.fence source = "" ∨ m.fence source = request) ∧
      ∀ source', m'.fence source' = if source' = source then request else m.fence source' := by
  unfold restoreFence at h
  split at h
  · cases h
  rename_i hother
  cases h
  constructor
  · by_cases hnone : m.fence source = ""
    · exact .inl hnone
    · refine .inr ?_
      by_contra hne
      exact hother ⟨hnone, hne⟩
  · intro source'
    simp only [fence, Map.lookup_insert_eq]
    split <;> rfl

end Maintenance

end RcdServer.Process
