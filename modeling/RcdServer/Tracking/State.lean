import Mathlib.Data.List.AList
import Mathlib.Data.Finset.Card
import RcdServer.Tracking.Journal

/-!
# The tracker's memory

`State` is what the tracker keeps behind its short mutex. Each operation below is
one critical section of `begin`, `update`, `degrade` or the journal writer.
`HashMap` and `BTreeMap` are association lists without duplicate keys; the bit
vector `seen` is the set of its raised bit positions.
-/
namespace RcdServer.Tracking

open Lib.Text (textLe)

/-- What the tracker takes from other crates: the digest, the length of a snapshot's
JSON text and the Unicode upper-case mapping of one character. -/
structure Env where
  sha256 : String → Vector UInt8 32
  rawLen : Snapshot → Nat
  toUppercase : Char → List Char

def cacheLimit : Nat := 10000

def keepCount : Int := 100000

/-- A buffered snapshot is a copy of its cache entry, and every cache entry carries a
revision the counter has already handed out. -/
structure State where
  entries : AList fun _ : String => Snapshot
  ack : AList fun _ : String × Nat => String
  dirty : AList fun _ : String => Snapshot
  revision : Nat
  persisted : AList fun _ : String => Nat
  error : String
  gap : Bool
  seen : Finset Nat
  buffered : ∀ k v, dirty.lookup k = some v → entries.lookup k = some v
  numbered : ∀ k v, entries.lookup k = some v → 0 < v.revision ∧ v.revision ≤ revision

def State.initial : State where
  entries := ∅
  ack := ∅
  dirty := ∅
  revision := 0
  persisted := ∅
  error := ""
  gap := false
  seen := ∅
  buffered := by simp
  numbered := by simp

/-- A lookup after an insertion finds the new value or what was there before. -/
theorem lookup_insert_cases {m : AList fun _ : String => Snapshot} {k k' : String} {v v' : Snapshot}
    (h : (m.insert k v).lookup k' = some v') :
    (k' = k ∧ v' = v) ∨ (k' ≠ k ∧ m.lookup k' = some v') := by
  by_cases hk : k' = k
  · subst hk
    rw [AList.lookup_insert] at h
    exact .inl ⟨rfl, (Option.some.inj h).symm⟩
  · rw [AList.lookup_insert_ne hk] at h
    exact .inr ⟨hk, h⟩

theorem lookup_erase_cases {m : AList fun _ : String => Snapshot} {k k' : String} {v' : Snapshot}
    (h : (m.erase k).lookup k' = some v') : k' ≠ k ∧ m.lookup k' = some v' := by
  by_cases hk : k' = k
  · subst hk
    rw [AList.lookup_erase] at h
    cases h
  · rw [AList.lookup_erase_ne hk] at h
    exact ⟨hk, h⟩

/-! ## The critical sections -/

/-- The memory half of `get`. -/
def State.get (s : State) (k : String) : Option Snapshot :=
  (s.entries.lookup k).map fun v => { v with auditIncomplete := v.auditIncomplete || s.error != "" }

def State.degrade (s : State) (error : String) : State := { s with error := error }

/-- `s.revision += 1` where no entry takes the number. -/
def State.skipRevision (s : State) : State :=
  { s with
    revision := s.revision + 1
    numbered := fun k v h => ⟨(s.numbered k v h).1, Nat.le_succ_of_le (s.numbered k v h).2⟩ }

/-- `s.revision += 1`, then the snapshot with that revision goes to `entries` and `dirty`. -/
def State.put (s : State) (k : String) (v : Snapshot) : State :=
  let v := { v with revision := s.revision + 1 }
  { s with
    entries := s.entries.insert k v
    dirty := s.dirty.insert k v
    revision := s.revision + 1
    buffered := by
      intro k' v' h
      rcases lookup_insert_cases h with ⟨rfl, rfl⟩ | ⟨hk, h⟩
      · exact AList.lookup_insert _
      · rw [AList.lookup_insert_ne hk]
        exact s.buffered k' v' h
    numbered := by
      intro k' v' h
      rcases lookup_insert_cases h with ⟨rfl, rfl⟩ | ⟨hk, h⟩
      · exact ⟨Nat.succ_pos _, Nat.le_refl _⟩
      · exact ⟨(s.numbered k' v' h).1, Nat.le_succ_of_le (s.numbered k' v' h).2⟩ }

/-- At most the last 256 attempts are kept. -/
def trimAttempts (v : Snapshot) : Snapshot :=
  if 256 < v.attempts.length then
    { v with attempts := v.attempts.drop (v.attempts.length - 256), auditIncomplete := true }
  else v

def State.update (s : State) (port : String) (ack : Option Nat) (change : Snapshot → Snapshot)
    (now : String) : State :=
  match ack with
  | none => s
  | some ack =>
    match s.ack.lookup (port, ack) with
    | none => s
    | some k =>
      match s.entries.lookup k with
      | none => s.skipRevision
      | some v => s.put k (trimAttempts { change v with updatedAt := now })

/-- The keys of the `BTreeMap` in its order. -/
def State.dirtyKeys (s : State) : List String :=
  s.dirty.keys.insertionSort fun a b => textLe a.toList b.toList

/-- `s.dirty.values().take(256)`. -/
def State.batch (s : State) : List Snapshot := (s.dirtyKeys.take 256).filterMap s.dirty.lookup

def State.rebaseKey (s : State) (k : String) : State :=
  match s.entries.lookup k with
  | none => s.skipRevision
  | some v => s.put k { v with auditIncomplete := true }

/-- `s.revision = s.revision.max(revision)`. -/
def State.raise (s : State) (revision : Nat) : State :=
  { s with
    revision := max s.revision revision
    numbered := fun k v h =>
      ⟨(s.numbered k v h).1, (s.numbered k v h).2.trans (le_max_left _ _)⟩ }

/-- The writer's section after a successful `open_database`. -/
def State.rebase (s : State) (revision : Nat) : State :=
  s.dirtyKeys.foldl State.rebaseKey (s.raise revision)

/-- The writer's section after a committed `save`. -/
def State.saved (s : State) (v : Snapshot) : State :=
  let clean := (s.dirty.lookup v.key).any fun x => x.revision == v.revision
  let dirty := if clean then s.dirty.erase v.key else s.dirty
  { s with
    persisted := s.persisted.insert v.key v.revision
    dirty := dirty
    error := if dirty.keys.isEmpty then "" else s.error
    buffered := by
      intro k w h
      by_cases hc : clean = true
      · rw [show dirty = s.dirty.erase v.key from if_pos hc] at h
        exact s.buffered k w (lookup_erase_cases h).2
      · rw [show dirty = s.dirty from if_neg hc] at h
        exact s.buffered k w h }

def State.markKey (s : State) (k : String) : State :=
  match h : s.entries.lookup k with
  | none => s
  | some v =>
    let w := { v with auditIncomplete := true }
    { s with
      entries := s.entries.insert k w
      dirty := s.dirty.insert k w
      buffered := by
        intro k' v' h'
        rcases lookup_insert_cases h' with ⟨rfl, rfl⟩ | ⟨hk, h'⟩
        · exact AList.lookup_insert _
        · rw [AList.lookup_insert_ne hk]
          exact s.buffered k' v' h'
      numbered := by
        intro k' v' h'
        rcases lookup_insert_cases h' with ⟨rfl, rfl⟩ | ⟨hk, h'⟩
        · exact s.numbered _ v h
        · exact s.numbered k' v' h' }

/-- The writer's section after a failed `save`. -/
def State.saveFailed (s : State) (error : String) : State :=
  s.dirtyKeys.foldl State.markKey (s.degrade error)

/-- `s.dirty.values().map(|v| v.revision.saturating_sub(1)).min().unwrap_or(s.revision)`. -/
def State.ceiling (s : State) : Nat :=
  ((s.dirty.entries.map fun e => e.2.revision - 1).min?).getD s.revision

/-! ## Reservation -/

/-- `digest.chunks_exact(4).take(4)` as little-endian words, each a bit position of `seen`. -/
def tombstones (digest : Vector UInt8 32) : List Nat :=
  let word (i : Nat) : Nat :=
    (List.range 4).foldr (fun b acc => (digest.toList.getD (4 * i + b) 0).toNat + 256 * acc) 0
  (List.range 4).map fun i => word i % (128 * 1024 * 8)

/-- The terminal entry with the least revision; revisions are unique, so the map's order is
immaterial. -/
def State.evictee (s : State) : Option String :=
  let terminal := s.entries.entries.filter fun e => e.2.terminal
  (terminal.insertionSort fun a b => a.2.revision ≤ b.2.revision).head?.map Sigma.fst

def State.evict (s : State) (old : String) : State :=
  { s with
    gap := s.gap || decide (old ∈ s.dirty)
    dirty := s.dirty.erase old
    entries := s.entries.erase old
    persisted := s.persisted.erase old
    ack := ⟨s.ack.entries.filter fun e => e.2 ≠ old, s.ack.nodupKeys.sublist List.filter_sublist⟩
    buffered := by
      intro k v h
      obtain ⟨hk, h⟩ := lookup_erase_cases h
      rw [AList.lookup_erase_ne hk]
      exact s.buffered k v h
    numbered := by
      intro k v h
      exact s.numbered k v (lookup_erase_cases h).2 }

/-- Room for one more entry, or `none` when every entry is still active. -/
def State.makeRoom (s : State) : Option State :=
  if cacheLimit ≤ s.entries.keys.length then s.evictee.map s.evict else some s

/-- The arguments of `begin` once they passed its checks. -/
structure Order where
  manager : String
  command : String
  port : String
  ack : Nat
  normalized : String
  hash : String
  deriving DecidableEq

def Order.key (o : Order) : String := Tracking.key o.manager o.command

def hexDigit (c : Char) : Option Nat :=
  if '0' ≤ c ∧ c ≤ '9' then some (c.toNat - '0'.toNat)
  else if 'A' ≤ c ∧ c ≤ 'F' then some (c.toNat - 'A'.toNat + 10)
  else if 'a' ≤ c ∧ c ≤ 'f' then some (c.toNat - 'a'.toNat + 10)
  else none

/-- `normalized.get(..2)` read by `u8::from_str_radix(_, 16)`, which takes a leading `+`. -/
def deviceOf (normalized : String) : String :=
  match normalized.toList with
  | a :: b :: _ =>
    if a.utf8Size = 1 ∧ b.utf8Size = 1 then
      match (if a = '+' then some 0 else hexDigit a), hexDigit b with
      | some high, some low => toString (16 * high + low)
      | _, _ => ""
    else ""
  | _ => ""

/-- The snapshot of a command that was just admitted. -/
def newlyReserved (o : Order) (gateway boot now : String) (degraded : Bool) : Snapshot :=
  { schemaVersion := 1
    managerInstanceId := o.manager
    commandId := o.command
    gatewayInstanceId := gateway
    bootId := boot
    portId := o.port
    ackId := toString o.ack
    requestHash := o.hash
    requestPreview := String.ofList (o.normalized.toList.take 512)
    deviceId := deviceOf o.normalized
    accepted := false
    statusCode := 0
    phase := .accepted
    attemptCount := 0
    sentCount := 0
    attempts := []
    error := ""
    revision := 0
    startedAt := now
    updatedAt := now
    auditIncomplete := degraded }

def State.enter (s : State) (o : Order) (bits : List Nat) (v : Snapshot) : State :=
  { s.put o.key v with
    ack := s.ack.insert (o.port, o.ack) o.key
    seen := s.seen ∪ bits.toFinset }

/-- The critical section of `begin` that admits a command. -/
def State.reserve (env : Env) (s : State) (gateway boot : String) (o : Order) (now : String) :
    Except String (State × Snapshot) :=
  let bits := tombstones (env.sha256 o.key)
  if bits.all (· ∈ s.seen) then
    .error "command identity was admitted but its evidence is no longer available; never replayed"
  else
    match s.makeRoom with
    | none => .error "too many active tracked commands"
    | some room =>
      let v := newlyReserved o gateway boot now (room.error != "")
      .ok (room.enter o bits v, { v with revision := room.revision + 1 })

/-! ## What the sections leave alone -/

@[simp] theorem State.saved_seen (s : State) (v : Snapshot) : (s.saved v).seen = s.seen := rfl

@[simp] theorem State.update_seen (s : State) (port : String) (ack : Option Nat)
    (change : Snapshot → Snapshot) (now : String) : (s.update port ack change now).seen = s.seen := by
  unfold State.update
  split
  · rfl
  · split
    · rfl
    · split <;> rfl

theorem State.foldl_seen {f : State → String → State} (hf : ∀ s k, (f s k).seen = s.seen)
    (s : State) (ks : List String) : (ks.foldl f s).seen = s.seen := by
  induction ks generalizing s with
  | nil => rfl
  | cons k ks ih => rw [List.foldl_cons, ih, hf]

@[simp] theorem State.rebase_seen (s : State) (r : Nat) : (s.rebase r).seen = s.seen := by
  refine (State.foldl_seen (fun s k => ?_) _ _).trans rfl
  unfold State.rebaseKey
  split <;> rfl

@[simp] theorem State.saveFailed_seen (s : State) (e : String) : (s.saveFailed e).seen = s.seen := by
  refine (State.foldl_seen (fun s k => ?_) _ _).trans rfl
  unfold State.markKey
  split <;> rfl

theorem State.makeRoom_seen {s room : State} (h : s.makeRoom = some room) : room.seen = s.seen := by
  unfold State.makeRoom at h
  split at h
  · obtain ⟨old, -, rfl⟩ := Option.map_eq_some_iff.mp h
    rfl
  · rw [Option.some.inj h]

/-- An admission found a lowered tombstone bit and room, and entered the new snapshot. -/
theorem State.reserve_ok {env : Env} {s s' : State} {gateway boot now : String} {o : Order}
    {v : Snapshot} (h : s.reserve env gateway boot o now = .ok (s', v)) :
    (∃ b ∈ tombstones (env.sha256 o.key), b ∉ s.seen) ∧
      ∃ room, s.makeRoom = some room ∧
        s' = room.enter o (tombstones (env.sha256 o.key))
          (newlyReserved o gateway boot now (room.error != "")) := by
  simp only [State.reserve] at h
  by_cases hbits : (tombstones (env.sha256 o.key)).all (· ∈ s.seen)
  · rw [if_pos hbits] at h
    cases h
  · rw [if_neg hbits] at h
    refine ⟨by simpa using hbits, ?_⟩
    cases hroom : s.makeRoom with
    | none =>
      rw [hroom] at h
      cases h
    | some room =>
      rw [hroom] at h
      exact ⟨room, rfl, (Prod.mk.inj (Except.ok.inj h)).1.symm⟩

/-- It raises all tombstone bits of the identity. -/
theorem State.reserve_seen {env : Env} {s s' : State} {gateway boot now : String} {o : Order}
    {v : Snapshot} (h : s.reserve env gateway boot o now = .ok (s', v)) :
    s'.seen = s.seen ∪ (tombstones (env.sha256 o.key)).toFinset := by
  obtain ⟨-, room, hroom, rfl⟩ := State.reserve_ok h
  rw [← State.makeRoom_seen hroom]
  rfl

/-! ## Buffered revisions -/

/-- The counter does not go back, and a buffered revision is an old one or above the old counter. -/
structure State.Advances (s s' : State) : Prop where
  revision : s.revision ≤ s'.revision
  dirty : ∀ k v, s'.dirty.lookup k = some v →
    (∃ w, s.dirty.lookup k = some w ∧ w.revision = v.revision) ∨ s.revision < v.revision

theorem State.Advances.refl (s : State) : s.Advances s :=
  ⟨Nat.le_refl _, fun _ v h => .inl ⟨v, h, rfl⟩⟩

theorem State.Advances.trans {s t u : State} (h : s.Advances t) (h' : t.Advances u) :
    s.Advances u := by
  refine ⟨h.revision.trans h'.revision, fun k v hv => ?_⟩
  rcases h'.dirty k v hv with ⟨w, hw, heq⟩ | hlt
  · rw [← heq]
    exact h.dirty k w hw
  · exact .inr (h.revision.trans_lt hlt)

/-- Dropping buffered snapshots and raising the counter is an advance. -/
theorem State.Advances.of_subset {s s' : State} (hr : s.revision ≤ s'.revision)
    (hd : ∀ k v, s'.dirty.lookup k = some v → s.dirty.lookup k = some v) : s.Advances s' :=
  ⟨hr, fun k v h => .inl ⟨v, hd k v h, rfl⟩⟩

theorem State.advances_degrade (s : State) (e : String) : s.Advances (s.degrade e) :=
  .of_subset (Nat.le_refl _) fun _ _ h => h

theorem State.advances_skipRevision (s : State) : s.Advances s.skipRevision :=
  .of_subset (Nat.le_succ _) fun _ _ h => h

theorem State.advances_put (s : State) (k : String) (v : Snapshot) : s.Advances (s.put k v) := by
  refine ⟨Nat.le_succ _, fun k' v' h => ?_⟩
  rcases lookup_insert_cases h with ⟨rfl, rfl⟩ | ⟨-, h⟩
  · exact .inr (Nat.lt_succ_self _)
  · exact .inl ⟨v', h, rfl⟩

theorem State.advances_update (s : State) (port : String) (ack : Option Nat)
    (change : Snapshot → Snapshot) (now : String) : s.Advances (s.update port ack change now) := by
  unfold State.update
  split
  · exact .refl s
  · split
    · exact .refl s
    · split
      · exact s.advances_skipRevision
      · exact s.advances_put _ _

theorem State.advances_makeRoom {s room : State} (h : s.makeRoom = some room) : s.Advances room := by
  unfold State.makeRoom at h
  split at h
  · obtain ⟨old, -, rfl⟩ := Option.map_eq_some_iff.mp h
    exact .of_subset (Nat.le_refl _) fun k v hv => (lookup_erase_cases hv).2
  · rw [Option.some.inj h]
    exact .refl _

theorem State.advances_reserve {env : Env} {s s' : State} {gateway boot now : String} {o : Order}
    {v : Snapshot} (h : s.reserve env gateway boot o now = .ok (s', v)) : s.Advances s' := by
  obtain ⟨-, room, hroom, rfl⟩ := State.reserve_ok h
  have hput := room.advances_put o.key (newlyReserved o gateway boot now (room.error != ""))
  exact (State.advances_makeRoom hroom).trans ⟨hput.revision, hput.dirty⟩

theorem State.advances_saved (s : State) (v : Snapshot) : s.Advances (s.saved v) := by
  refine .of_subset (Nat.le_refl _) fun k w h => ?_
  change (if (s.dirty.lookup v.key).any (fun x => x.revision == v.revision) then s.dirty.erase v.key
    else s.dirty).lookup k = some w at h
  split at h
  · exact (lookup_erase_cases h).2
  · exact h

/-- Marking a buffered entry again does not renumber it. -/
theorem State.advances_markKey (s : State) (k : String) (hk : k ∈ s.dirty) :
    s.Advances (s.markKey k) := by
  obtain ⟨x, hx⟩ := Option.isSome_iff_exists.mp (AList.lookup_isSome.mpr hk)
  unfold State.markKey
  split
  · exact .refl s
  · rename_i v hv
    have hxv : x = v := Option.some.inj ((s.buffered k x hx).symm.trans hv)
    subst hxv
    refine ⟨Nat.le_refl _, fun k' v' h => ?_⟩
    rcases lookup_insert_cases h with ⟨rfl, rfl⟩ | ⟨-, h⟩
    · exact .inl ⟨x, hx, rfl⟩
    · exact .inl ⟨v', h, rfl⟩

theorem State.mem_markKey {s : State} {k k' : String} (h : k' ∈ s.dirty) : k' ∈ (s.markKey k).dirty := by
  unfold State.markKey
  split
  · exact h
  · exact (AList.mem_insert _).mpr (.inr h)

theorem State.mem_dirtyKeys {s : State} {k : String} : k ∈ s.dirtyKeys ↔ k ∈ s.dirty := by
  rw [State.dirtyKeys, List.mem_insertionSort, AList.mem_keys]

theorem State.advances_saveFailed (s : State) (e : String) : s.Advances (s.saveFailed e) := by
  refine (s.advances_degrade e).trans ?_
  have hmem : ∀ k ∈ s.dirtyKeys, k ∈ (s.degrade e).dirty := fun k hk => State.mem_dirtyKeys.mp hk
  unfold State.saveFailed
  generalize s.degrade e = t at hmem ⊢
  generalize s.dirtyKeys = ks at hmem
  induction ks generalizing t with
  | nil => exact .refl t
  | cons k ks ih =>
    rw [List.forall_mem_cons] at hmem
    exact (t.advances_markKey k hmem.1).trans
      (ih _ fun k' hk' => State.mem_markKey (hmem.2 k' hk'))

theorem State.advances_rebaseKey (s : State) (k : String) : s.Advances (s.rebaseKey k) := by
  unfold State.rebaseKey
  split
  · exact s.advances_skipRevision
  · exact s.advances_put _ _

/-- After the loop of the rebase no buffered snapshot keeps a number up to `base`. -/
theorem State.foldl_rebaseKey_dirty {base : Nat} (ks : List String) (s : State)
    (hbase : base ≤ s.revision)
    (hks : ∀ k v, s.dirty.lookup k = some v → base < v.revision ∨ k ∈ ks) :
    ∀ k v, (ks.foldl State.rebaseKey s).dirty.lookup k = some v → base < v.revision := by
  induction ks generalizing s with
  | nil => exact fun k v h => (hks k v h).resolve_right (List.not_mem_nil)
  | cons k₀ ks ih =>
    refine ih (s.rebaseKey k₀) (hbase.trans (s.advances_rebaseKey k₀).revision) ?_
    intro k v h
    unfold State.rebaseKey at h
    split at h
    · rename_i hnone
      -- a buffered key always has an entry, so the skipped key was not buffered
      rcases hks k v h with hlt | hmem
      · exact .inl hlt
      · rcases List.mem_cons.mp hmem with rfl | hmem
        · rw [s.buffered k v h] at hnone
          cases hnone
        · exact .inr hmem
    · rcases lookup_insert_cases h with ⟨rfl, rfl⟩ | ⟨hk, h⟩
      · exact .inl (Nat.lt_succ_of_le hbase)
      · rcases hks k v h with hlt | hmem
        · exact .inl hlt
        · exact .inr ((List.mem_cons.mp hmem).resolve_left hk)

theorem State.rebase_dirty (s : State) (r : Nat) {k : String} {v : Snapshot}
    (h : (s.rebase r).dirty.lookup k = some v) : r < v.revision := by
  refine State.foldl_rebaseKey_dirty s.dirtyKeys (s.raise r) (le_max_right _ _) ?_ k v h
  exact fun k v hv => .inr (State.mem_dirtyKeys.mpr (AList.lookup_isSome.mp (Option.isSome_of_eq_some hv)))

theorem State.rebase_revision (s : State) (r : Nat) : r ≤ (s.rebase r).revision := by
  unfold State.rebase
  have hstart : r ≤ (s.raise r).revision := le_max_right _ _
  generalize s.raise r = t at hstart ⊢
  generalize s.dirtyKeys = ks
  induction ks generalizing t with
  | nil => exact hstart
  | cons k ks ih => exact ih (t.rebaseKey k) (hstart.trans (t.advances_rebaseKey k).revision)

theorem State.mem_batch {s : State} {v : Snapshot} (h : v ∈ s.batch) :
    ∃ k, s.dirty.lookup k = some v := by
  obtain ⟨k, -, hk⟩ := List.mem_filterMap.mp h
  exact ⟨k, hk⟩

/-- The ceiling lies below every buffered revision and does not exceed the counter. -/
theorem State.ceiling_spec (s : State) :
    s.ceiling ≤ s.revision ∧ ∀ k v, s.dirty.lookup k = some v → s.ceiling < v.revision := by
  unfold State.ceiling
  cases hmin : (s.dirty.entries.map fun e => e.2.revision - 1).min? with
  | none =>
    have hnil : s.dirty.entries = [] := by simpa using hmin
    refine ⟨Nat.le_refl _, fun k v h => ?_⟩
    have := AList.mem_lookup_iff.mp h
    rw [hnil] at this
    cases this
  | some r =>
    obtain ⟨hmem, hle⟩ := List.min?_eq_some_iff.mp hmin
    constructor
    · obtain ⟨⟨k, v⟩, he, rfl⟩ := List.mem_map.mp hmem
      have hv := s.numbered k v (s.buffered k v (AList.mem_lookup_iff.mpr he))
      exact (Nat.sub_le _ _).trans hv.2
    · intro k v h
      have hv := s.numbered k v (s.buffered k v h)
      have := hle _ (List.mem_map_of_mem (AList.mem_lookup_iff.mp h))
      simp only [Option.getD_some] at this ⊢
      omega

/-- A number up to the counter and below every buffered revision is at most the ceiling. -/
theorem State.le_ceiling {s : State} {c : Nat} (hc : c ≤ s.revision)
    (hd : ∀ k v, s.dirty.lookup k = some v → c < v.revision) : c ≤ s.ceiling := by
  unfold State.ceiling
  cases hmin : (s.dirty.entries.map fun e => e.2.revision - 1).min? with
  | none => exact hc
  | some r =>
    obtain ⟨⟨k, v⟩, he, rfl⟩ := List.mem_map.mp (List.min?_eq_some_iff.mp hmin).1
    have := hd k v (AList.mem_lookup_iff.mpr he)
    simp only [Option.getD_some]
    omega

end RcdServer.Tracking
