import RcdServer.Routes.Runs

/-!
# The indices of the route table agree

`Indexed` relates the four maps that locate a command, `Counted` the counters of the groups. Each
operation on the reservations is a composition of adding, moving and removing one command, with
one lemma for each.
-/
namespace RcdServer.Routes

open Lib Lib.Run

namespace Reservations

/-! ## The relations -/

/-- The four maps locate the same commands. -/
structure Indexed (r : Reservations) : Prop where
  executing : ∀ key c, r.pendingByKey.lookup key = some c →
    key = c.key ∧ r.pendingByID.lookup c.id = some key ∧ r.queuedByID.lookup c.id = none
  queued : ∀ id c, r.queuedByID.lookup id = some c →
    c.id = id ∧ r.pendingByID.lookup id = some c.key ∧ id ∈ r.queue c.key
  identified : ∀ id key, r.pendingByID.lookup id = some key →
    (∃ c, r.pendingByKey.lookup key = some c ∧ c.id = id) ∨
      ∃ c, r.queuedByID.lookup id = some c ∧ c.key = key
  ports : ∀ key ids, r.queuedByPort.lookup key = some ids →
    ids ≠ [] ∧ ids.Nodup ∧ ∀ id ∈ ids, ∃ c, r.queuedByID.lookup id = some c ∧ c.key = key

/-- The executing and queued commands of a group. -/
def commandsOf (r : Reservations) (g : String) : Nat :=
  Map.count (fun c => c.groupID == g) r.pendingByKey +
    Map.count (fun c => c.groupID == g) r.queuedByID

def Counted (r : Reservations) : Prop :=
  ∀ g, r.pendingByGroup.lookup g =
    if r.commandsOf g = 0 then none else some (r.commandsOf g : Int)

/-! ## Counters -/

section Frame

variable (r : Reservations) (g : String)

@[simp] theorem release_pendingByKey : (r.release g).pendingByKey = r.pendingByKey := by
  unfold release; split <;> rfl

@[simp] theorem release_pendingByID : (r.release g).pendingByID = r.pendingByID := by
  unfold release; split <;> rfl

@[simp] theorem release_queuedByID : (r.release g).queuedByID = r.queuedByID := by
  unfold release; split <;> rfl

@[simp] theorem release_queuedByPort : (r.release g).queuedByPort = r.queuedByPort := by
  unfold release; split <;> rfl

@[simp] theorem release_queue (key : String) : (r.release g).queue key = r.queue key := by
  simp [queue]

end Frame

theorem Counted.pendingCount {r : Reservations} (h : r.Counted) (g : String) :
    r.pendingCount g = r.commandsOf g := by
  rw [Reservations.pendingCount, h g]
  split
  · rename_i hzero
    simp [hzero]
  · rfl

/-- One command of the group more in the maps than in the counters. -/
theorem counted_retain {r : Reservations} {g : String} {n : String → Nat}
    (h : ∀ g', r.pendingByGroup.lookup g' = if n g' = 0 then none else some (n g' : Int))
    (hn : ∀ g', r.commandsOf g' = n g' + if g = g' then 1 else 0) : (r.retain g).Counted := by
  intro g'
  have hcount : r.pendingCount g = n g := by
    rw [Reservations.pendingCount, h g]
    split
    · rename_i hzero
      simp [hzero]
    · rfl
  show (r.pendingByGroup.insert g (r.pendingCount g + 1)).lookup g' =
    if r.commandsOf g' = 0 then none else some (r.commandsOf g' : Int)
  rw [Map.lookup_insert_eq, hn g', hcount]
  by_cases hg : g' = g
  · subst hg
    simp
  · simp [hg, Ne.symm hg, h g']

/-- One command of the group less in the maps than in the counters. -/
theorem counted_release {r : Reservations} {g : String} {n : String → Nat}
    (h : ∀ g', r.pendingByGroup.lookup g' = if n g' = 0 then none else some (n g' : Int))
    (hn : ∀ g', r.commandsOf g' + (if g = g' then 1 else 0) = n g') : (r.release g).Counted := by
  intro g'
  have hpos : n g = r.commandsOf g + 1 := by
    have := hn g
    simp only [if_true] at this
    exact this.symm
  have hcount : r.pendingCount g = n g := by
    rw [Reservations.pendingCount, h g, if_neg (by omega)]
    rfl
  have hsame : (r.release g).commandsOf g' = r.commandsOf g' := by
    simp [commandsOf]
  rw [hsame]
  by_cases hg : g' = g
  · subst hg
    unfold release
    split
    · rename_i hzero
      have hnone : r.commandsOf g' = 0 := by omega
      simp [hnone]
    · rename_i hmore
      have hsome : r.commandsOf g' ≠ 0 := by omega
      simp only [AList.lookup_insert, if_neg hsome, Option.some.injEq]
      omega
  · have hn' : n g' = r.commandsOf g' := by
      have := hn g'
      simp only [if_neg (Ne.symm hg), Nat.add_zero] at this
      exact this.symm
    rw [← hn', ← h g']
    unfold release
    split
    · exact AList.lookup_erase_ne hg
    · exact AList.lookup_insert_ne hg

/-! ## Adding a command -/

theorem indexed_empty : Indexed .empty where
  executing := by simp [empty]
  queued := by simp [empty]
  identified := by simp [empty]
  ports := by simp [empty]

theorem counted_empty : Counted .empty := fun _ => rfl

section Operations

variable {r : Reservations}

theorem Indexed.not_queued (h : r.Indexed) {id : String} (hid : r.pendingByID.lookup id = none) :
    r.queuedByID.lookup id = none := by
  cases hq : r.queuedByID.lookup id with
  | none => rfl
  | some c =>
    have hid' := (h.queued id c hq).2.1
    rw [hid] at hid'
    cases hid'

theorem Indexed.addExecuting (h : r.Indexed) {c : PendingCommand}
    (hid : r.pendingByID.lookup c.id = none) (hkey : r.pendingByKey.lookup c.key = none) :
    (r.addExecuting c).Indexed where
  executing := by
    intro key c' hc'
    simp only [Reservations.addExecuting, retain, Map.lookup_insert_eq] at hc' ⊢
    split at hc'
    · rename_i hkey'
      cases hc'
      exact ⟨hkey', by simp [hkey'], h.not_queued hid⟩
    · obtain ⟨hk, hi, hq⟩ := h.executing key c' hc'
      have hne : c'.id ≠ c.id := by
        intro heq
        rw [heq, hid] at hi
        cases hi
      exact ⟨hk, by rw [if_neg hne]; exact hi, hq⟩
  queued := by
    intro id c' hc'
    obtain ⟨hi, hp, hq⟩ := h.queued id c' hc'
    have hne : id ≠ c.id := by
      rintro rfl
      rw [hid] at hp
      cases hp
    refine ⟨hi, ?_, hq⟩
    simp only [Reservations.addExecuting, retain, Map.lookup_insert_eq, if_neg hne]
    exact hp
  identified := by
    intro id key hp
    simp only [Reservations.addExecuting, retain, Map.lookup_insert_eq] at hp ⊢
    split at hp
    · rename_i heq
      cases hp
      exact .inl ⟨c, by simp, heq.symm⟩
    · rcases h.identified id key hp with ⟨c', hc', hid'⟩ | hq
      · have hne : key ≠ c.key := by
          rintro rfl
          rw [hkey] at hc'
          cases hc'
        exact .inl ⟨c', by rw [if_neg hne]; exact hc', hid'⟩
      · exact .inr hq
  ports := h.ports

theorem Counted.addExecuting (h : r.Counted) {c : PendingCommand}
    (hkey : r.pendingByKey.lookup c.key = none) : (r.addExecuting c).Counted := by
  unfold Reservations.addExecuting
  refine counted_retain (n := r.commandsOf) h ?_
  intro g
  simp only [commandsOf, Map.count_insert_new hkey, beq_iff_eq]
  omega

theorem Indexed.addQueued (h : r.Indexed) {c : PendingCommand}
    (hid : r.pendingByID.lookup c.id = none) : (r.addQueued c).Indexed where
  executing := by
    intro key c' hc'
    obtain ⟨hk, hi, hq⟩ := h.executing key c' hc'
    have hne : c'.id ≠ c.id := by
      intro heq
      rw [heq, hid] at hi
      cases hi
    simp only [Reservations.addQueued, retain, Map.lookup_insert_eq, if_neg hne]
    exact ⟨hk, hi, hq⟩
  queued := by
    intro id c' hc'
    simp only [Reservations.addQueued, retain, queue, Map.lookup_insert_eq] at hc' ⊢
    split at hc'
    · rename_i heq
      cases hc'
      exact ⟨heq.symm, by simp [heq], by simp [heq]⟩
    · rename_i hne
      obtain ⟨hi, hp, hq⟩ := h.queued id c' hc'
      refine ⟨hi, by rw [if_neg hne]; exact hp, ?_⟩
      split
      · rename_i hkey
        rw [hkey] at hq
        exact List.mem_append_left _ hq
      · exact hq
  identified := by
    intro id key hp
    simp only [Reservations.addQueued, retain, Map.lookup_insert_eq] at hp ⊢
    split at hp
    · rename_i heq
      cases hp
      exact .inr ⟨c, by simp [heq], rfl⟩
    · rename_i hne
      rcases h.identified id key hp with hx | ⟨c', hc', hk⟩
      · exact .inl hx
      · exact .inr ⟨c', by rw [if_neg hne]; exact hc', hk⟩
  ports := by
    intro key ids hids
    have hfresh := h.not_queued hid
    simp only [Reservations.addQueued, retain, Map.lookup_insert_eq] at hids ⊢
    have hold : ∀ ids', r.queuedByPort.lookup key = some ids' → ids'.Nodup ∧ c.id ∉ ids' ∧
        ∀ id ∈ ids', ∃ c', (if id = c.id then some c else r.queuedByID.lookup id) = some c' ∧
          c'.key = key := by
      intro ids' hids'
      obtain ⟨-, hnodup, hall⟩ := h.ports key ids' hids'
      have hnew : c.id ∉ ids' := by
        intro hmem
        obtain ⟨c', hc', -⟩ := hall c.id hmem
        rw [hfresh] at hc'
        cases hc'
      refine ⟨hnodup, hnew, ?_⟩
      intro id hmem
      obtain ⟨c', hc', hk⟩ := hall id hmem
      have hne : id ≠ c.id := by
        rintro rfl
        exact hnew hmem
      exact ⟨c', by rw [if_neg hne]; exact hc', hk⟩
    split at hids
    · rename_i hkey
      cases hids
      subst hkey
      refine ⟨by simp, ?_⟩
      cases hq : r.queuedByPort.lookup c.key with
      | none => simp [queue, hq]
      | some ids' =>
        obtain ⟨hnodup, hnew, hall⟩ := hold ids' hq
        simp only [queue, hq, Option.getD_some]
        refine ⟨List.nodup_append.mpr ⟨hnodup, List.nodup_singleton _, ?_⟩, ?_⟩
        · intro a ha b hb
          rw [List.mem_singleton] at hb
          rintro rfl
          exact hnew (hb ▸ ha)
        · intro id hmem
          rcases List.mem_append.mp hmem with hmem | hmem
          · exact hall id hmem
          · rw [List.mem_singleton] at hmem
            exact ⟨c, by simp [hmem], rfl⟩
    · obtain ⟨hnodup, -, hall⟩ := hold ids hids
      exact ⟨(h.ports key ids hids).1, hnodup, hall⟩

theorem Counted.addQueued (h : r.Counted) {c : PendingCommand}
    (hid : r.queuedByID.lookup c.id = none) : (r.addQueued c).Counted := by
  unfold Reservations.addQueued
  refine counted_retain (n := r.commandsOf) h ?_
  intro g
  simp only [commandsOf, Map.count_insert_new hid, beq_iff_eq]
  omega

/-! ## Removing and moving a command -/

theorem Indexed.removeExecuting (h : r.Indexed) {key : String} {c : PendingCommand}
    (hc : r.pendingByKey.lookup key = some c) : (r.removeExecuting key c.id).Indexed where
  executing := by
    intro key' c' hc'
    simp only [Reservations.removeExecuting, Map.lookup_erase_eq] at hc' ⊢
    split at hc'
    · cases hc'
    · rename_i hne
      obtain ⟨hk, hi, hq⟩ := h.executing key' c' hc'
      have hne' : c'.id ≠ c.id := by
        intro heq
        rw [heq, (h.executing key c hc).2.1] at hi
        exact hne (Option.some.inj hi).symm
      exact ⟨hk, by rw [if_neg hne']; exact hi, hq⟩
  queued := by
    intro id c' hc'
    obtain ⟨hi, hp, hq⟩ := h.queued id c' hc'
    have hne : id ≠ c.id := by
      rintro rfl
      have hnone := (h.executing key c hc).2.2
      rw [show r.queuedByID.lookup c.id = some c' from hc'] at hnone
      cases hnone
    simp only [Reservations.removeExecuting, Map.lookup_erase_eq, if_neg hne]
    exact ⟨hi, hp, hq⟩
  identified := by
    intro id key' hp
    simp only [Reservations.removeExecuting, Map.lookup_erase_eq] at hp ⊢
    split at hp
    · cases hp
    · rename_i hne
      rcases h.identified id key' hp with ⟨c', hc', hid⟩ | hq
      · have hne' : key' ≠ key := by
          rintro rfl
          rw [hc] at hc'
          cases hc'
          exact hne hid.symm
        exact .inl ⟨c', by rw [if_neg hne']; exact hc', hid⟩
      · exact .inr hq
  ports := h.ports

/-- The queue of a port, without the command that was removed. -/
theorem Indexed.queue_removeQueued (h : r.Indexed) {id : String} {c : PendingCommand}
    (hc : r.queuedByID.lookup id = some c) (key : String) :
    (r.removeQueued id).queue key = if key = c.key then (r.queue key).erase id else r.queue key := by
  obtain ⟨-, hp, -⟩ := h.queued id c hc
  simp only [Reservations.removeQueued, hp, Option.getD_some]
  by_cases hkey : key = c.key
  · subst hkey
    simp only [if_true]
    by_cases hempty : ((r.queue c.key).erase id).isEmpty = true
    · rw [if_pos hempty, queue, AList.lookup_erase]
      simpa using (List.isEmpty_iff.mp hempty).symm
    · rw [if_neg hempty, queue, AList.lookup_insert]
      rfl
  · rw [if_neg hkey]
    by_cases hempty : ((r.queue c.key).erase id).isEmpty = true
    · rw [if_pos hempty, queue, AList.lookup_erase_ne hkey, queue]
    · rw [if_neg hempty, queue, AList.lookup_insert_ne hkey, queue]

theorem Indexed.queue_nodup (h : r.Indexed) (key : String) : (r.queue key).Nodup := by
  rw [queue]
  cases hq : r.queuedByPort.lookup key with
  | none => exact List.nodup_nil
  | some ids => exact (h.ports key ids hq).2.1

theorem Indexed.mem_queue (h : r.Indexed) {key id : String} (hid : id ∈ r.queue key) :
    ∃ c, r.queuedByID.lookup id = some c ∧ c.key = key := by
  rw [queue] at hid
  cases hq : r.queuedByPort.lookup key with
  | none => simp [hq] at hid
  | some ids => exact (h.ports key ids hq).2.2 id (by simpa [hq] using hid)

theorem Indexed.removeQueued (h : r.Indexed) {id : String} {c : PendingCommand}
    (hc : r.queuedByID.lookup id = some c) : (r.removeQueued id).Indexed where
  executing := by
    intro key c' hc'
    obtain ⟨hk, hi, hq⟩ := h.executing key c' hc'
    have hne : c'.id ≠ id := by
      intro heq
      rw [heq, hc] at hq
      cases hq
    simp only [Reservations.removeQueued, Map.lookup_erase_eq, if_neg hne]
    exact ⟨hk, hi, hq⟩
  queued := by
    intro id' c' hc'
    simp only [Reservations.removeQueued, Map.lookup_erase_eq] at hc'
    split at hc'
    · cases hc'
    · rename_i hne
      obtain ⟨hi, hp, hq⟩ := h.queued id' c' hc'
      refine ⟨hi, ?_, ?_⟩
      · simp only [Reservations.removeQueued, Map.lookup_erase_eq, if_neg hne]
        exact hp
      · rw [h.queue_removeQueued hc]
        split
        · exact (List.mem_erase_of_ne hne).mpr hq
        · exact hq
  identified := by
    intro id' key hp
    simp only [Reservations.removeQueued, Map.lookup_erase_eq] at hp ⊢
    split at hp
    · cases hp
    · rename_i hne
      rcases h.identified id' key hp with hx | ⟨c', hc', hk⟩
      · exact .inl hx
      · exact .inr ⟨c', by rw [if_neg hne]; exact hc', hk⟩
  ports := by
    intro key ids hids
    have hqueue : (r.removeQueued id).queue key = ids := by rw [queue, hids]; rfl
    refine ⟨?_, ?_, ?_⟩
    · -- An empty list would have been deleted.
      rintro rfl
      have hp := (h.queued id c hc).2.1
      simp only [Reservations.removeQueued, hp, Option.getD_some] at hids
      split at hids
      · rw [Map.lookup_erase_eq] at hids
        split at hids
        · cases hids
        · exact (h.ports key [] hids).1 rfl
      · rename_i hne
        rw [Map.lookup_insert_eq] at hids
        split at hids
        · exact hne (by simpa using hids)
        · exact (h.ports key [] hids).1 rfl
    · rw [← hqueue, h.queue_removeQueued hc]
      split
      · exact (h.queue_nodup key).erase id
      · exact h.queue_nodup key
    · intro id' hid'
      rw [← hqueue, h.queue_removeQueued hc] at hid'
      have hmem : id' ∈ r.queue key ∧ id' ≠ id := by
        split at hid'
        · obtain ⟨hne, hmem⟩ := (h.queue_nodup key).mem_erase_iff.mp hid'
          exact ⟨hmem, hne⟩
        · rename_i hkey
          refine ⟨hid', ?_⟩
          rintro rfl
          obtain ⟨c', hc', hk⟩ := h.mem_queue hid'
          rw [hc] at hc'
          cases hc'
          exact hkey hk.symm
      obtain ⟨c', hc', hk⟩ := h.mem_queue hmem.1
      exact ⟨c', by simp only [Reservations.removeQueued, Map.lookup_erase_eq, if_neg hmem.2]; exact hc', hk⟩

theorem Indexed.release (h : r.Indexed) (g : String) : (r.release g).Indexed where
  executing := by simpa using h.executing
  queued := by simpa using h.queued
  identified := by simpa using h.identified
  ports := by simpa using h.ports

theorem Counted.finishExecuting (h : r.Counted) {key : String} {c : PendingCommand}
    (hc : r.pendingByKey.lookup key = some c) : (r.finishExecuting key c).Counted := by
  unfold Reservations.finishExecuting
  refine counted_release (n := r.commandsOf) h ?_
  intro g
  have herase := Map.count_erase (p := fun c' => c'.groupID == g) hc
  simp only [beq_iff_eq] at herase
  simp only [commandsOf, Reservations.removeExecuting]
  omega

theorem Counted.dropQueued (h : r.Counted) {c : PendingCommand}
    (hc : r.queuedByID.lookup c.id = some c) : (r.dropQueued c).Counted := by
  unfold Reservations.dropQueued
  refine counted_release (n := r.commandsOf) h ?_
  intro g
  have herase := Map.count_erase (p := fun c' => c'.groupID == g) hc
  simp only [beq_iff_eq] at herase
  simp only [commandsOf, Reservations.removeQueued]
  omega

theorem Indexed.finishExecuting (h : r.Indexed) {key : String} {c : PendingCommand}
    (hc : r.pendingByKey.lookup key = some c) : (r.finishExecuting key c).Indexed :=
  (h.removeExecuting hc).release c.groupID

theorem Indexed.dropQueued (h : r.Indexed) {c : PendingCommand}
    (hc : r.queuedByID.lookup c.id = some c) : (r.dropQueued c).Indexed :=
  (h.removeQueued hc).release c.groupID

end Operations

/-! ## Removals

All that finishing, cancelling and sweeping do to the reservations. -/

inductive Removal (r : Reservations) : Reservations → Prop
  | finish {key : String} {c : PendingCommand} (hc : r.pendingByKey.lookup key = some c) :
      Removal r (r.finishExecuting key c)
  | drop {c : PendingCommand} (hc : r.queuedByID.lookup c.id = some c) :
      Removal r (r.dropQueued c)

abbrev Removals : Reservations → Reservations → Prop := Relation.ReflTransGen Removal

/-- The two relations together. -/
def Sound (r : Reservations) : Prop := r.Indexed ∧ r.Counted

theorem Removal.sound {r r' : Reservations} (h : Removal r r') (hr : r.Sound) : r'.Sound := by
  cases h with
  | finish hc => exact ⟨hr.1.finishExecuting hc, hr.2.finishExecuting hc⟩
  | drop hc => exact ⟨hr.1.dropQueued hc, hr.2.dropQueued hc⟩

theorem Removals.sound {r r' : Reservations} (h : Removals r r') (hr : r.Sound) : r'.Sound :=
  moves_invariant Sound (fun _ _ hmove => hmove.sound) h hr

/-- A removal leaves every other command where it was. -/
theorem Removal.executing {r r' : Reservations} (h : Removal r r') {key : String}
    {c : PendingCommand} (hc : r'.pendingByKey.lookup key = some c) :
    r.pendingByKey.lookup key = some c := by
  cases h with
  | finish _ =>
    simp only [finishExecuting, removeExecuting, release_pendingByKey, Map.lookup_erase_eq] at hc
    split at hc
    · cases hc
    · exact hc
  | drop _ => simpa [dropQueued, removeQueued] using hc

theorem Removal.queued {r r' : Reservations} (h : Removal r r') {id : String}
    {c : PendingCommand} (hc : r'.queuedByID.lookup id = some c) :
    r.queuedByID.lookup id = some c := by
  cases h with
  | finish _ => simpa [finishExecuting, removeExecuting] using hc
  | drop _ =>
    simp only [dropQueued, removeQueued, release_queuedByID, Map.lookup_erase_eq] at hc
    split at hc
    · cases hc
    · exact hc

theorem Removal.queue_sublist {r r' : Reservations} (h : Removal r r') (hr : r.Indexed)
    (key : String) : (r'.queue key).Sublist (r.queue key) := by
  cases h with
  | finish _ => simp [finishExecuting, removeExecuting, queue]
  | drop hc =>
    rw [dropQueued, release_queue, hr.queue_removeQueued hc]
    split
    · exact List.erase_sublist
    · exact List.Sublist.refl _

theorem Removals.executing {r r' : Reservations} (h : Removals r r') {key : String}
    {c : PendingCommand} (hc : r'.pendingByKey.lookup key = some c) :
    r.pendingByKey.lookup key = some c := by
  induction h with
  | refl => exact hc
  | tail _ hmove ih => exact ih (hmove.executing hc)

theorem Removals.queued {r r' : Reservations} (h : Removals r r') {id : String}
    {c : PendingCommand} (hc : r'.queuedByID.lookup id = some c) :
    r.queuedByID.lookup id = some c := by
  induction h with
  | refl => exact hc
  | tail _ hmove ih => exact ih (hmove.queued hc)

theorem Removals.queue_sublist {r r' : Reservations} (h : Removals r r') (hr : r.Sound)
    (key : String) : (r'.queue key).Sublist (r.queue key) := by
  induction h with
  | refl => exact List.Sublist.refl _
  | tail hmoves hmove ih =>
    exact (hmove.queue_sublist (Removals.sound hmoves hr).1 key).trans ih

section Finishing

variable {r : Reservations}

theorem finishCommand_removals {id : String} {state : CommandState} {status : Nat}
    {message : String} {now : Time} {out : Reservations × PendingCommand} (hr : r.Indexed)
    (h : r.finishCommand id state status message now = .ok out) : Removals r out.1 := by
  unfold finishCommand at h
  split at h
  · cases h
  · cases hid : r.pendingByID.lookup id with
    | none => simp [hid] at h
    | some key =>
      cases hq : r.queuedByID.lookup id with
      | some c =>
        simp only [hid, hq, Except.ok.injEq] at h
        subst h
        obtain ⟨rfl, -⟩ := hr.queued id c hq
        exact .single (.drop hq)
      | none =>
        cases hc : r.pendingByKey.lookup key with
        | none => simp [hid, hq, hc] at h
        | some c =>
          simp only [hid, hq, hc, Except.ok.injEq] at h
          subst h
          exact .single (.finish hc)

theorem finishCommandBySourcePort_removals {sourceID port : String} {state : CommandState}
    {status : Nat} {message : String} {now : Time} {out : Reservations × PendingCommand}
    (h : r.finishCommandBySourcePort sourceID port state status message now = .ok out) :
    Removals r out.1 := by
  unfold finishCommandBySourcePort at h
  split at h
  · cases h
  · cases hc : r.pendingByKey.lookup (portKey sourceID port) with
    | none => simp [hc] at h
    | some c =>
      simp only [hc, Except.ok.injEq] at h
      subst h
      exact .single (.finish hc)

/-- The loop over a snapshot of the map: the entries still to come have not been touched. -/
theorem sweepExecuting_removals {cutoff : Time}
    {entries : List (Sigma fun _ : String => PendingCommand)} (hnodup : entries.NodupKeys)
    (hall : ∀ e ∈ entries, r.pendingByKey.lookup e.1 = some e.2) :
    Removals r (sweepExecuting cutoff r entries) ∧
      (sweepExecuting cutoff r entries).queuedByID = r.queuedByID := by
  induction entries generalizing r with
  | nil => exact ⟨.refl, rfl⟩
  | cons e entries ih =>
    obtain ⟨key, c⟩ := e
    obtain ⟨hnew, hrest⟩ := List.nodupKeys_cons.mp hnodup
    have hc : r.pendingByKey.lookup key = some c := hall _ List.mem_cons_self
    have htail : ∀ e ∈ entries, r.pendingByKey.lookup e.1 = some e.2 :=
      fun e he => hall e (List.mem_cons_of_mem _ he)
    rw [sweepExecuting]
    split
    · have htail' : ∀ e ∈ entries, (r.finishExecuting key c).pendingByKey.lookup e.1 = some e.2 := by
        intro e he
        have hmem : e.1 ∈ entries.keys := List.mem_keys_of_mem he
        have hne : e.1 ≠ key := by
          rintro rfl
          exact hnew hmem
        simp only [finishExecuting, removeExecuting, release_pendingByKey]
        rw [AList.lookup_erase_ne hne]
        exact htail e he
      obtain ⟨hmoves, hsame⟩ := ih hrest htail'
      exact ⟨.head (.finish hc) hmoves, hsame.trans (by simp [finishExecuting, removeExecuting])⟩
    · exact ih hrest htail

theorem sweepQueued_removals {cutoff : Time}
    {entries : List (Sigma fun _ : String => PendingCommand)} (hnodup : entries.NodupKeys)
    (hall : ∀ e ∈ entries, e.2.id = e.1 ∧ r.queuedByID.lookup e.1 = some e.2) :
    Removals r (sweepQueued cutoff r entries) := by
  induction entries generalizing r with
  | nil => exact .refl
  | cons e entries ih =>
    obtain ⟨id, c⟩ := e
    obtain ⟨hnew, hrest⟩ := List.nodupKeys_cons.mp hnodup
    obtain ⟨hid, hc⟩ : c.id = id ∧ r.queuedByID.lookup id = some c := hall _ List.mem_cons_self
    have htail : ∀ e ∈ entries, e.2.id = e.1 ∧ r.queuedByID.lookup e.1 = some e.2 :=
      fun e he => hall e (List.mem_cons_of_mem _ he)
    subst hid
    rw [sweepQueued]
    split
    · refine .head (.drop hc) (ih hrest ?_)
      intro e he
      have hmem : e.1 ∈ entries.keys := List.mem_keys_of_mem he
      have hne : e.1 ≠ c.id := by
        intro heq
        exact hnew (heq ▸ hmem)
      refine ⟨(htail e he).1, ?_⟩
      simp only [dropQueued, removeQueued, release_queuedByID]
      rw [AList.lookup_erase_ne hne]
      exact (htail e he).2
    · exact ih hrest htail

theorem sweepExpired_removals (hr : r.Indexed) (now maxAge : Time) :
    Removals r (r.sweepExpired now maxAge).1 := by
  unfold sweepExpired
  split
  · exact .refl
  · obtain ⟨hexecuting, hsame⟩ :
        Removals r (sweepExecuting (now - maxAge) r r.pendingByKey.entries) ∧
          (sweepExecuting (now - maxAge) r r.pendingByKey.entries).queuedByID = r.queuedByID :=
      sweepExecuting_removals r.pendingByKey.nodupKeys fun e he => Map.mem_entries.mp he
    refine hexecuting.trans (sweepQueued_removals r.queuedByID.nodupKeys ?_)
    intro e he
    have hlookup := Map.mem_entries.mp he
    exact ⟨(hr.queued e.1 e.2 hlookup).1, by rw [hsame]; exact hlookup⟩

end Finishing

/-! ## Activation -/

/-- The head of a free port's queue starts to execute. -/
structure Activation (r : Reservations) (c : PendingCommand) (r' : Reservations) : Prop where
  queued : r.queuedByID.lookup c.id = some c
  free : r.pendingByKey.lookup c.key = none
  head : ∃ tail, r.queue c.key = c.id :: tail
  moved : r' = { r.removeQueued c.id with
    pendingByKey := r.pendingByKey.insert c.key { c with state := .waiting }
    pendingByID := (r.pendingByID.erase c.id).insert c.id c.key }

theorem activateQueued_eq_ok {r : Reservations} {id : String} {out : Reservations × PendingCommand}
    (hr : r.Indexed) (h : r.activateQueued id = .ok out) :
    ∃ c, c.id = id ∧ out.2 = { c with state := .waiting } ∧ Activation r c out.1 := by
  unfold activateQueued at h
  cases hq : r.queuedByID.lookup id with
  | none => simp [hq] at h
  | some c =>
    obtain ⟨rfl, hid, hmem⟩ := hr.queued id c hq
    have hkey : (r.pendingByID.lookup c.id).getD "" = c.key := by
      rw [hid]
      rfl
    simp only [hq] at h
    rw [hkey] at h
    split at h
    · cases h
    · rename_i hfree
      simp only [ne_eq, not_or, not_not, Bool.not_eq_true, Option.isSome_eq_false_iff,
        Option.isNone_iff_eq_none] at hfree
      cases h
      refine ⟨c, rfl, rfl, hq, hfree.1, ?_, rfl⟩
      obtain ⟨tail, htail⟩ := List.head?_eq_some_iff.mp hfree.2
      exact ⟨tail, htail⟩

section Activating

variable {r r' : Reservations} {c : PendingCommand}

theorem Activation.sound (h : Activation r c r') (hr : r.Sound) : r'.Sound := by
  obtain ⟨hq, hfree, -, rfl⟩ := h
  have hremoved := hr.1.removeQueued hq
  constructor
  · -- The indices of the moved command are those of a new one.
    have hadd := hremoved.addExecuting (c := { c with state := .waiting })
      (AList.lookup_erase c.id r.pendingByID) hfree
    exact ⟨hadd.executing, hadd.queued, hadd.identified, hadd.ports⟩
  · intro g
    have hsame : commandsOf { r.removeQueued c.id with
        pendingByKey := r.pendingByKey.insert c.key { c with state := .waiting }
        pendingByID := (r.pendingByID.erase c.id).insert c.id c.key } g = r.commandsOf g := by
      have herase := Map.count_erase (p := fun c' => c'.groupID == g) hq
      simp only [commandsOf, removeQueued, Map.count_insert_new hfree]
      omega
    rw [hsame]
    exact hr.2 g

theorem Activation.queue (h : Activation r c r') (hr : r.Indexed) (key : String) :
    r'.queue key = if key = c.key then (r.queue key).tail else r.queue key := by
  obtain ⟨hq, -, ⟨tail, htail⟩, rfl⟩ := h
  have hremove := hr.queue_removeQueued hq key
  show (r.removeQueued c.id).queue key = _
  rw [hremove]
  split
  · rename_i hkey
    rw [hkey, htail]
    simp
  · rfl

theorem Activation.executing (h : Activation r c r') {key : String} {c' : PendingCommand}
    (hc : r'.pendingByKey.lookup key = some c') :
    (key = c.key ∧ c' = { c with state := .waiting }) ∨
      (key ≠ c.key ∧ r.pendingByKey.lookup key = some c') := by
  obtain ⟨-, -, -, rfl⟩ := h
  rw [Map.lookup_insert_eq] at hc
  split at hc
  · rename_i hkey
    cases hc
    exact .inl ⟨hkey, rfl⟩
  · exact .inr ⟨‹_›, hc⟩

theorem Activation.still_queued (h : Activation r c r') {id : String} {c' : PendingCommand}
    (hc : r'.queuedByID.lookup id = some c') : r.queuedByID.lookup id = some c' := by
  obtain ⟨-, -, -, rfl⟩ := h
  simp only [removeQueued, Map.lookup_erase_eq] at hc
  split at hc
  · cases hc
  · exact hc

end Activating

end Reservations

open Reservations

/-! ## Accepting a command -/

namespace RouteTable

variable {t : RouteTable}

/-- The command's source is a member of its group. -/
def Placed (config : Configuration) (c : PendingCommand) : Prop :=
  ∃ s, config.sources.lookup c.sourceID = some s ∧ s.hasGroup c.groupID = true

/-- The session has selected the command's source for the group. -/
def Selected (t : RouteTable) (sessionID groupID : String) (c : PendingCommand) : Prop :=
  ∃ s route, t.sessions.lookup sessionID = some s ∧ s.routes.lookup groupID = some route ∧
    c.sourceID = route.sourceID

theorem beginCommand_eq_ok {sessionID groupID port kind nodeID request id : String} {now : Time}
    {out : RouteTable × PendingCommand}
    (h : t.beginCommand sessionID groupID port kind nodeID request id now = .ok out) :
    ∃ c : PendingCommand, c.id = id ∧ t.Selected sessionID groupID c ∧ c.kind = kind ∧
      Placed t.config c ∧
      t.commands.pendingByKey.lookup c.key = none ∧ t.commands.queue c.key = [] ∧
      out = ({ t with commands := t.commands.addExecuting c }, c) := by
  unfold beginCommand at h
  split at h
  · cases h
  split at h
  · cases h
  cases hs : t.sessions.lookup sessionID with
  | none => simp [hs] at h
  | some s =>
    simp only [hs] at h
    cases hr : s.routes.lookup groupID with
    | none => simp [hr] at h
    | some route =>
      simp only [hr] at h
      split at h
      · cases h
      cases hv : t.config.validateSource groupID route.sourceID with
      | error e => simp [hv] at h
      | ok u =>
        simp only [hv] at h
        split at h
        · cases h
        rename_i hfree
        split at h
        · cases h
        rename_i hqueue
        cases h
        exact ⟨_, rfl, ⟨s, route, hs, hr, rfl⟩, rfl, Configuration.validateSource_eq_ok hv,
          by simpa [PendingCommand.key] using hfree, by simpa [PendingCommand.key] using hqueue, rfl⟩

theorem enqueueWrite_eq_ok {sessionID groupID port nodeID request id : String} {now : Time}
    {out : RouteTable × PendingCommand}
    (h : t.enqueueWrite sessionID groupID port nodeID request id now = .ok out) :
    ∃ c : PendingCommand, c.id = id ∧ t.Selected sessionID groupID c ∧ c.kind = "Write" ∧
      Placed t.config c ∧
      (∀ active, t.commands.pendingByKey.lookup c.key = some active →
        active.kind ≠ commandKindPassiveReset) ∧
      (t.commands.queue c.key).length +
          (if (t.commands.pendingByKey.lookup c.key).isSome then 1 else 0) < commandQueueCapacity ∧
      out = ({ t with commands := t.commands.addQueued c }, c) := by
  unfold enqueueWrite at h
  cases hs : t.sessions.lookup sessionID with
  | none => simp [hs] at h
  | some s =>
    simp only [hs] at h
    cases hr : s.routes.lookup groupID with
    | none => simp [hr] at h
    | some route =>
      simp only [hr] at h
      split at h
      · cases h
      cases hv : t.config.validateSource groupID route.sourceID with
      | error e => simp [hv] at h
      | ok u =>
        simp only [hv] at h
        by_cases hactive : (t.commands.pendingByKey.lookup (portKey route.sourceID port)).any
            (·.kind == commandKindPassiveReset) = true
        · rw [if_pos hactive] at h
          cases h
        rw [if_neg hactive] at h
        by_cases hcount : (t.commands.queue (portKey route.sourceID port)).length +
            (if (t.commands.pendingByKey.lookup (portKey route.sourceID port)).isSome then 1 else 0) ≥
            commandQueueCapacity
        · rw [if_pos hcount] at h
          cases h
        rw [if_neg hcount] at h
        obtain ⟨c, hc⟩ : ∃ c : PendingCommand, c =
            { id := id, sessionID := sessionID, groupID := groupID
              sourceID := route.sourceID, port := port, kind := "Write", nodeID := nodeID
              request := request, state := .queued
              statusCode := statusBadWaitingForResponse, startedAt := now } := ⟨_, rfl⟩
        rw [← hc, Except.ok.injEq] at h
        have hkey : c.key = portKey route.sourceID port := by rw [hc]; rfl
        refine ⟨c, by rw [hc], ⟨s, route, hs, hr, by rw [hc]⟩, by rw [hc], ?_, ?_, ?_, h.symm⟩
        · rw [hc]
          exact Configuration.validateSource_eq_ok hv
        · intro active hlookup
          rw [hkey] at hlookup
          simpa [hlookup] using hactive
        · rw [hkey]
          exact Nat.not_le.mp hcount

theorem restorePending_eq_ok {c : PendingCommand} {now : Time} {t' : RouteTable}
    (h : t.restorePending c now = .ok t') :
    ∃ c' : PendingCommand, c'.id = c.id ∧ c'.key = c.key ∧ c'.groupID = c.groupID ∧
      c'.kind = c.kind ∧ Placed t.config c' ∧ t.commands.pendingByID.lookup c'.id = none ∧
      t.commands.pendingByKey.lookup c'.key = none ∧
      t' = { t with commands := t.commands.addExecuting c' } := by
  unfold restorePending at h
  split at h
  · cases h
  split at h
  · cases h
  split at h
  · cases h
  cases hm : t.config.validateSourceMembership c.groupID c.sourceID with
  | error e => simp [hm] at h
  | ok s =>
    simp only [hm] at h
    split at h
    · cases h
    rename_i hid
    split at h
    · cases h
    rename_i hkey
    refine ⟨{ c with
        startedAt := if c.startedAt = 0 then now else c.startedAt
        statusCode := statusBadWaitingForResponse }, rfl, rfl, rfl, rfl,
      ⟨s, validateSourceMembershipIn_eq_ok.mp hm⟩, by simpa using hid, ?_, (Except.ok.inj h).symm⟩
    show t.commands.pendingByKey.lookup c.key = none
    simpa using hkey

/-! ## Finishing with the queue -/

@[simp] theorem Finish.release_commands (f : Finish) (g : String) :
    (f.release g).table.commands = f.table.commands.release g := by
  unfold Finish.release
  dsimp only
  split <;> rfl

theorem cancelTail_removals {now : Time} {id : String} {f : Finish} {ids : List String}
    (hr : f.table.commands.Sound) :
    Removals f.table.commands (cancelTail now id f ids).table.commands ∧
      (cancelTail now id f ids).table.commands.pendingByKey = f.table.commands.pendingByKey ∧
      (cancelTail now id f ids).table.commands.queuedByID.lookup id =
        f.table.commands.queuedByID.lookup id := by
  induction ids generalizing f with
  | nil => exact ⟨.refl, rfl, rfl⟩
  | cons queuedID rest ih =>
    rw [cancelTail]
    split
    · exact ih hr
    · rename_i hne
      cases hq : f.table.commands.queuedByID.lookup queuedID with
      | none => exact ih hr
      | some c =>
        obtain ⟨rfl, -⟩ := hr.1.queued queuedID c hq
        have hcancel : (f.cancel c now).table.commands = f.table.commands.dropQueued c :=
          Finish.release_commands _ _
        have hmove : Removal f.table.commands (f.cancel c now).table.commands :=
          hcancel ▸ .drop hq
        obtain ⟨hmoves, hkeys, hqueued⟩ := ih (hmove.sound hr)
        refine ⟨.head hmove hmoves, hkeys.trans ?_, hqueued.trans ?_⟩
        · simp [hcancel, dropQueued, removeQueued]
        · simp only [hcancel, dropQueued, removeQueued, release_queuedByID]
          exact AList.lookup_erase_ne (Ne.symm hne)

/-- The tail is cancelled, or not; then the command itself is removed and its group released. -/
theorem commitCommandFinish_eq_ok {id : String} {cancel : Bool} {now : Time} {f : Finish}
    (hr : t.commands.Sound) (h : t.commitCommandFinish id cancel now = .ok f) :
    ∃ (f₁ : Finish) (commands : Reservations) (g : String),
      (f₁ = { table := t } ∨ ∃ ids, f₁ = cancelTail now id { table := t } ids) ∧
      Removals t.commands f₁.table.commands ∧
      Removal f₁.table.commands (commands.release g) ∧
      (commands.release g).pendingByID.lookup id = none ∧
      f = Finish.release { f₁ with table := { f₁.table with commands := commands } } g := by
  unfold commitCommandFinish at h
  cases hid : t.commands.pendingByID.lookup id with
  | none => simp [hid] at h
  | some key =>
    simp only [hid] at h
    obtain ⟨f₁, hf₁, hcases, hmoves, hkeys, hqueued⟩ : ∃ f₁ : Finish,
        (if cancel = true then cancelTail now id { table := t } (t.commands.queue key)
          else { table := t }) = f₁ ∧
        (f₁ = { table := t } ∨ ∃ ids, f₁ = cancelTail now id { table := t } ids) ∧
        Removals t.commands f₁.table.commands ∧
        f₁.table.commands.pendingByKey = t.commands.pendingByKey ∧
        f₁.table.commands.queuedByID.lookup id = t.commands.queuedByID.lookup id := by
      refine ⟨_, rfl, ?_⟩
      split
      · exact ⟨.inr ⟨_, rfl⟩, cancelTail_removals (f := { table := t }) hr⟩
      · exact ⟨.inl rfl, .refl, rfl, rfl⟩
    rw [hf₁] at h
    have hsound := Removals.sound hmoves hr
    cases hq : f₁.table.commands.queuedByID.lookup id with
    | some c =>
      simp only [hq, Except.ok.injEq] at h
      obtain ⟨rfl, -⟩ := hsound.1.queued id c hq
      exact ⟨f₁, _, _, hcases, hmoves, .drop hq, by simp [removeQueued], h.symm⟩
    | none =>
      cases hc : f₁.table.commands.pendingByKey.lookup key with
      | none => simp [hq, hc] at h
      | some c =>
        simp only [hq, hc, Except.ok.injEq] at h
        have hcid : c.id = id := by
          rcases hr.1.identified id key hid with ⟨c', hc', hid'⟩ | ⟨c', hc', -⟩
          · rw [hkeys, hc'] at hc
            exact Option.some.inj hc ▸ hid'
          · rw [hqueued, hc'] at hq
            cases hq
        subst hcid
        exact ⟨f₁, _, _, hcases, hmoves, .finish hc, by simp [removeExecuting], h.symm⟩

theorem commitCommandFinish_removals {id : String} {cancel : Bool} {now : Time} {f : Finish}
    (hr : t.commands.Sound) (h : t.commitCommandFinish id cancel now = .ok f) :
    Removals t.commands f.table.commands := by
  obtain ⟨f₁, commands, g, -, hmoves, hmove, -, rfl⟩ := commitCommandFinish_eq_ok hr h
  rw [Finish.release_commands]
  exact hmoves.tail hmove

/-- The finished command is no longer reserved. -/
theorem commitCommandFinish_gone {id : String} {cancel : Bool} {now : Time} {f : Finish}
    (hr : t.commands.Sound) (h : t.commitCommandFinish id cancel now = .ok f) :
    f.table.commands.pendingByID.lookup id = none := by
  obtain ⟨f₁, commands, g, -, -, -, hgone, rfl⟩ := commitCommandFinish_eq_ok hr h
  rw [Finish.release_commands]
  exact hgone

/-- The other executing commands stay. -/
theorem commitCommandFinish_others {id : String} {cancel : Bool} {now : Time} {f : Finish}
    (hr : t.commands.Sound) (h : t.commitCommandFinish id cancel now = .ok f) {key : String}
    {c : PendingCommand} (hc : t.commands.pendingByKey.lookup key = some c) (hne : c.id ≠ id) :
    f.table.commands.pendingByKey.lookup key = some c := by
  unfold commitCommandFinish at h
  cases hid : t.commands.pendingByID.lookup id with
  | none => simp [hid] at h
  | some key' =>
    simp only [hid] at h
    obtain ⟨f₁, hf₁, hkeys, hqueued⟩ : ∃ f₁ : Finish,
        (if cancel = true then cancelTail now id { table := t } (t.commands.queue key')
          else { table := t }) = f₁ ∧
        f₁.table.commands.pendingByKey = t.commands.pendingByKey ∧
        f₁.table.commands.queuedByID.lookup id = t.commands.queuedByID.lookup id := by
      refine ⟨_, rfl, ?_⟩
      split
      · exact (cancelTail_removals (f := { table := t }) hr).2
      · exact ⟨rfl, rfl⟩
    rw [hf₁] at h
    rw [← hkeys] at hc
    cases hq : f₁.table.commands.queuedByID.lookup id with
    | some c' =>
      simp only [hq, Except.ok.injEq] at h
      subst h
      rw [Finish.release_commands, release_pendingByKey]
      exact hc
    | none =>
      cases hc' : f₁.table.commands.pendingByKey.lookup key' with
      | none => simp [hq, hc'] at h
      | some c' =>
        simp only [hq, hc', Except.ok.injEq] at h
        subst h
        rw [Finish.release_commands, release_pendingByKey]
        have hkey : key ≠ key' := by
          intro heq
          rcases hr.1.identified id key' hid with ⟨c₁, hc₁, hid₁⟩ | ⟨c₁, hc₁, -⟩
          · rw [← hkeys, ← heq, hc] at hc₁
            exact hne (Option.some.inj hc₁ ▸ hid₁)
          · rw [hqueued, hc₁] at hq
            cases hq
        exact (AList.lookup_erase_ne hkey).trans hc

/-- A cancelled tail is no longer queued. -/
theorem cancelTail_clears {now : Time} {id : String} {f : Finish} {ids : List String}
    (hr : f.table.commands.Sound) {q : String} (hq : q ∈ ids) (hne : q ≠ id) :
    (cancelTail now id f ids).table.commands.queuedByID.lookup q = none := by
  induction ids generalizing f with
  | nil => cases hq
  | cons queuedID rest ih =>
    rw [cancelTail]
    split
    · rename_i heq
      rcases List.mem_cons.mp hq with rfl | hq
      · exact absurd heq hne
      · exact ih hr hq
    · cases hlookup : f.table.commands.queuedByID.lookup queuedID with
      | none =>
        -- Not queued any more; removals do not bring it back.
        cases hafter : (cancelTail now id f rest).table.commands.queuedByID.lookup q with
        | none => rfl
        | some c =>
          have hbefore := (cancelTail_removals hr).1.queued hafter
          rcases List.mem_cons.mp hq with rfl | hq
          · simp [hlookup] at hbefore
          · simp [ih hr hq] at hafter
      | some c =>
        obtain ⟨rfl, -⟩ := hr.1.queued queuedID c hlookup
        have hcancel : (f.cancel c now).table.commands = f.table.commands.dropQueued c :=
          Finish.release_commands _ _
        have hmove : Removal f.table.commands (f.cancel c now).table.commands :=
          hcancel ▸ .drop hlookup
        rcases List.mem_cons.mp hq with rfl | hq
        · show (cancelTail now id (f.cancel c now) rest).table.commands.queuedByID.lookup c.id = none
          cases hafter : (cancelTail now id (f.cancel c now) rest).table.commands.queuedByID.lookup
              c.id with
          | none => rfl
          | some c' =>
            have hbefore := (cancelTail_removals (hmove.sound hr)).1.queued hafter
            simp [hcancel, dropQueued, removeQueued] at hbefore
        · exact ih (hmove.sound hr) hq

/-- An executing command can be finished; with its tail cancelled, nothing of its queue is left. -/
theorem commitCommandFinish_executing {key : String} {c : PendingCommand} (hr : t.commands.Sound)
    (hc : t.commands.pendingByKey.lookup key = some c) (cancel : Bool) (now : Time) :
    ∃ f, t.commitCommandFinish c.id cancel now = .ok f ∧
      (cancel = true → ∀ q ∈ t.commands.queue key,
        f.table.commands.queuedByID.lookup q = none) := by
  obtain ⟨-, hid, hnotQueued⟩ := hr.1.executing key c hc
  unfold commitCommandFinish
  simp only [hid]
  cases cancel with
  | false =>
    simp only [Bool.false_eq_true, if_false, hnotQueued, hc]
    exact ⟨_, rfl, by simp⟩
  | true =>
    let f₁ := cancelTail now c.id { table := t } (t.commands.queue key)
    have hkeys : f₁.table.commands.pendingByKey = t.commands.pendingByKey :=
      (cancelTail_removals (f := { table := t }) hr).2.1
    have hqueued : f₁.table.commands.queuedByID.lookup c.id = none :=
      ((cancelTail_removals (f := { table := t }) hr).2.2).trans hnotQueued
    simp only [if_true, f₁] at hkeys hqueued ⊢
    simp only [hqueued, hkeys, hc]
    refine ⟨_, rfl, ?_⟩
    intro _ q hq
    have hne : q ≠ c.id := by
      rintro rfl
      obtain ⟨c', hc', -⟩ := hr.1.mem_queue hq
      simp [hnotQueued] at hc'
    rw [Finish.release_commands]
    simpa [removeExecuting] using cancelTail_clears (f := { table := t }) hr hq hne

end RouteTable

end RcdServer.Routes
