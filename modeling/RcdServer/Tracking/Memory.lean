import RcdServer.Serial.CommandTransaction
import RcdServer.Tracking.Admission
import RcdServer.Tracking.Paging

/-!
# The tracker's memory over a boot

The tables of a `State` agree with each other after every critical section, a command that was
marked as incompletely audited stays marked, and a `begin` call that returns an error has left
the tables alone. `update` is called with the closures of the source only.
-/
namespace RcdServer.Tracking

/-! ## The closures of the source -/

/-- `v.accepted = true`, before a command is handed to its worker. -/
def accepting (v : Snapshot) : Snapshot := { v with accepted := true }

def channelUnavailable (v : Snapshot) : Snapshot :=
  { v with accepted := false, phase := .failed, error := "command channel unavailable" }

/-- The closure of `submit_command`; a status other than good counts as expired or failed. -/
def submitted (status : Nat) (timedOut : Bool) (text : String) (v : Snapshot) : Snapshot :=
  let v := { v with statusCode := status }
  if status = 0 then v
  else if timedOut then
    { v with accepted := false, phase := .expired, error := "deadline_expired_before_admission" }
  else { v with accepted := false, phase := .failed, error := text }

def auditLost (v : Snapshot) : Snapshot := { v with auditIncomplete := true }

/-- The closures that the source passes to `update`. -/
inductive SourceChange : (Snapshot → Snapshot) → Prop where
  | accepting : SourceChange accepting
  | channelUnavailable : SourceChange channelUnavailable
  | submitted (status : Nat) (timedOut : Bool) (text : String) :
      SourceChange (submitted status timedOut text)
  | auditLost : SourceChange auditLost
  | rejectedBy (reason : String) : SourceChange (Serial.rejectedBy reason)
  | shutDown : SourceChange Serial.shutDown
  | expiredBy (error : String) : SourceChange (Serial.expiredBy error)
  | executing (attempt : Nat) (now : String) : SourceChange (Serial.executing attempt now)
  | directOutcome (sent : Bool) : SourceChange (Serial.directOutcome sent)
  | writeFailed : SourceChange Serial.writeFailed
  | writeDone : SourceChange Serial.writeDone
  | ackMissed (reason : String) : SourceChange (Serial.ackMissed reason)
  | ackStatus (status : Serial.CommandAckStatus) : SourceChange (Serial.ackStatus status)
  | interrupted : SourceChange Serial.interrupted
  | swept : SourceChange Serial.swept

/-- No closure renames a command or takes its audit mark away. -/
theorem SourceChange.keeps {change : Snapshot → Snapshot} (h : SourceChange change)
    (v : Snapshot) :
    (change v).key = v.key ∧ (v.auditIncomplete = true → (change v).auditIncomplete = true) := by
  cases h with
  | submitted status timedOut text =>
    unfold Tracking.submitted
    dsimp only
    split_ifs <;> exact ⟨rfl, id⟩
  | shutDown =>
    unfold Serial.shutDown
    split_ifs <;> exact ⟨rfl, id⟩
  | ackStatus status =>
    cases status with
    | waiting => exact ⟨rfl, id⟩
    | received => exact ⟨rfl, id⟩
    | failed =>
      simp only [Serial.ackStatus]
      split_ifs <;> exact ⟨rfl, id⟩
  | interrupted =>
    unfold Serial.interrupted
    split_ifs
    · exact ⟨rfl, id⟩
    · exact ⟨rfl, fun _ => rfl⟩
  | swept =>
    unfold Serial.swept
    split_ifs <;> exact ⟨rfl, id⟩
  | auditLost => exact ⟨rfl, fun _ => rfl⟩
  | _ => exact ⟨rfl, id⟩

theorem trimAttempts_keeps (v : Snapshot) :
    (trimAttempts v).key = v.key ∧ (trimAttempts v).attempts.length ≤ 256 ∧
      (v.auditIncomplete = true → (trimAttempts v).auditIncomplete = true) := by
  unfold trimAttempts
  split_ifs with h
  · refine ⟨?_, ?_, fun _ => rfl⟩
    · simp only [Snapshot.key]
    · simp only [List.length_drop]
      omega
  · refine ⟨rfl, ?_, id⟩
    omega

/-! ## Tables that agree -/

/-- What holds of the tables between two critical sections. -/
structure Memory (env : Env) (s : State) : Prop where
  acked : ∀ p k, s.ack.lookup p = some k → k ∈ s.entries
  dirty : ∀ k ∈ s.dirty, k ∈ s.entries
  buffered : ∀ k v, s.dirty.lookup k = some v → s.entries.lookup k = some v
  distinct : ∀ k k' v v', s.entries.lookup k = some v → s.entries.lookup k' = some v' →
    v.revision = v'.revision → k = k'
  numbered : ∀ k v, s.entries.lookup k = some v → v.revision ≤ s.revision
  capped : s.entries.keys.length ≤ cacheLimit
  attempts : ∀ k v, s.entries.lookup k = some v → v.attempts.length ≤ 256
  keyed : ∀ k v, s.entries.lookup k = some v → v.key = k
  raised : ∀ k ∈ s.entries, ∀ b ∈ tombstones (env.sha256 k), b ∈ s.seen

/-- A key of the buffer is a key of the cache, as its snapshot is there. -/
theorem State.mem_of_dirty (s : State) {k : String} (h : k ∈ s.dirty) : k ∈ s.entries := by
  obtain ⟨v, hv⟩ := Option.isSome_iff_exists.mp (AList.lookup_isSome.mpr h)
  exact AList.lookup_isSome.mp (Option.isSome_of_eq_some (s.buffered k v hv))

section Sections

variable {env : Env} {s : State}

theorem Memory.frame {t : State} (h : Memory env s) (hentries : t.entries = s.entries)
    (hack : t.ack = s.ack) (hseen : s.seen ⊆ t.seen) : Memory env t where
  acked := by rw [hack, hentries]; exact h.acked
  dirty := fun _ hk => t.mem_of_dirty hk
  buffered := t.buffered
  distinct := by rw [hentries]; exact h.distinct
  numbered := fun k v hv => (t.numbered k v hv).2
  capped := by rw [hentries]; exact h.capped
  attempts := by rw [hentries]; exact h.attempts
  keyed := by rw [hentries]; exact h.keyed
  raised := by rw [hentries]; exact fun k hk b hb => hseen (h.raised k hk b hb)

theorem memory_initial (env : Env) : Memory env State.initial where
  acked := by simp [State.initial]
  dirty := by simp [State.initial]
  buffered := by simp [State.initial]
  distinct := by simp [State.initial]
  numbered := by simp [State.initial]
  capped := by simp [State.initial]
  attempts := by simp [State.initial]
  keyed := by simp [State.initial]
  raised := by simp [State.initial]

theorem length_keys_insert (m : AList fun _ : String => Snapshot) (k : String) (v : Snapshot) :
    (m.insert k v).keys.length ≤ m.keys.length + 1 ∧
      (k ∈ m → (m.insert k v).keys.length = m.keys.length) := by
  rw [AList.keys_insert, List.length_cons]
  constructor
  · exact Nat.succ_le_succ (List.length_erase_le)
  · intro hk
    rw [List.length_erase_of_mem (AList.mem_keys.mpr hk)]
    have hpos : 0 < m.keys.length := List.length_pos_of_mem (AList.mem_keys.mpr hk)
    omega

/-- One entry is replaced or added; it comes with the identity of its key, a limited list of
attempts and a revision of its own. -/
theorem Memory.store {t : State} (h : Memory env s) {k : String} {v : Snapshot}
    (hentries : t.entries = s.entries.insert k v) (hack : ∀ p j, t.ack.lookup p = some j →
      s.ack.lookup p = some j ∨ j = k)
    (hkey : v.key = k) (hattempts : v.attempts.length ≤ 256) (hseen : s.seen ⊆ t.seen)
    (hraised : ∀ b ∈ tombstones (env.sha256 k), b ∈ t.seen)
    (hroom : k ∈ s.entries ∨ s.entries.keys.length < cacheLimit)
    (hown : ∀ j w, j ≠ k → s.entries.lookup j = some w → w.revision ≠ v.revision) :
    Memory env t where
  acked := by
    intro p j hj
    rw [hentries, AList.mem_insert]
    rcases hack p j hj with hold | rfl
    · exact .inr (h.acked p j hold)
    · exact .inl rfl
  dirty := fun _ hk => t.mem_of_dirty hk
  buffered := t.buffered
  distinct := by
    intro j j' w w' hj hj' hrev
    rw [hentries] at hj hj'
    rcases lookup_insert_cases hj with ⟨hjk, hw⟩ | ⟨hne, hold⟩
    · rcases lookup_insert_cases hj' with ⟨hjk', _⟩ | ⟨hne', hold'⟩
      · exact hjk.trans hjk'.symm
      · exact absurd (hrev.symm.trans (congrArg Snapshot.revision hw)) (hown j' w' hne' hold')
    · rcases lookup_insert_cases hj' with ⟨_, hw'⟩ | ⟨_, hold'⟩
      · exact absurd (hrev.trans (congrArg Snapshot.revision hw')) (hown j w hne hold)
      · exact h.distinct j j' w w' hold hold' hrev
  numbered := fun j w hw => (t.numbered j w hw).2
  capped := by
    have hlen := length_keys_insert s.entries k v
    have hcap := h.capped
    rw [hentries]
    rcases hroom with hk | hlt
    · rw [hlen.2 hk]
      exact hcap
    · omega
  attempts := by
    intro j w hw
    rw [hentries] at hw
    rcases lookup_insert_cases hw with ⟨rfl, rfl⟩ | ⟨-, hw⟩
    · exact hattempts
    · exact h.attempts j w hw
  keyed := by
    intro j w hw
    rw [hentries] at hw
    rcases lookup_insert_cases hw with ⟨rfl, rfl⟩ | ⟨-, hw⟩
    · exact hkey
    · exact h.keyed j w hw
  raised := by
    intro j hj b hb
    rw [hentries, AList.mem_insert] at hj
    rcases hj with rfl | hj
    · exact hraised b hb
    · exact hseen (h.raised j hj b hb)

theorem Memory.put (h : Memory env s) {k : String} {v w : Snapshot}
    (hk : s.entries.lookup k = some v) (hkey : w.key = k) (hattempts : w.attempts.length ≤ 256) :
    Memory env (s.put k w) := by
  have hmem : k ∈ s.entries := AList.lookup_isSome.mp (Option.isSome_of_eq_some hk)
  refine h.store rfl (fun _ _ => .inl) hkey hattempts (Finset.Subset.refl _) (h.raised k hmem)
    (.inl hmem) fun j x _ hj => ?_
  exact Nat.ne_of_lt (Nat.lt_succ_of_le (h.numbered j x hj))

theorem Memory.skipRevision (h : Memory env s) : Memory env s.skipRevision :=
  h.frame rfl rfl (Finset.Subset.refl _)

theorem Memory.degrade (h : Memory env s) (error : String) : Memory env (s.degrade error) :=
  h.frame rfl rfl (Finset.Subset.refl _)

theorem Memory.update (h : Memory env s) (port : String) (ack : Option Nat)
    {change : Snapshot → Snapshot} (hchange : SourceChange change) (now : String) :
    Memory env (s.update port ack change now) := by
  unfold State.update
  split
  · exact h
  · split
    · exact h
    · rename_i k _
      split
      · exact h.skipRevision
      · rename_i v hv
        obtain ⟨hkey, hattempts, _⟩ := trimAttempts_keeps { change v with updatedAt := now }
        refine h.put hv (hkey.trans ?_) hattempts
        exact (hchange.keeps v).1.trans (h.keyed k v hv)

theorem Memory.rebaseKey (h : Memory env s) (k : String) : Memory env (s.rebaseKey k) := by
  unfold State.rebaseKey
  split
  · exact h.skipRevision
  · rename_i v hv
    exact h.put hv (h.keyed k v hv) (h.attempts k v hv)

theorem Memory.foldl {f : State → String → State}
    (hf : ∀ (s : State) k, Memory env s → Memory env (f s k)) (ks : List String)
    (h : Memory env s) : Memory env (ks.foldl f s) := by
  induction ks generalizing s with
  | nil => exact h
  | cons k ks ih => exact ih (hf s k h)

theorem Memory.rebase (h : Memory env s) (revision : Nat) : Memory env (s.rebase revision) := by
  have hraise : Memory env (s.raise revision) :=
    h.frame rfl rfl (Finset.Subset.refl _)
  exact Memory.foldl (fun _ k ht => ht.rebaseKey k) s.dirtyKeys hraise

theorem Memory.saved (h : Memory env s) (v : Snapshot) : Memory env (s.saved v) :=
  h.frame rfl rfl (Finset.Subset.refl _)

theorem Memory.markKey (h : Memory env s) (k : String) : Memory env (s.markKey k) := by
  unfold State.markKey
  split
  · exact h
  · rename_i v hv
    have hmem : k ∈ s.entries := AList.lookup_isSome.mp (Option.isSome_of_eq_some hv)
    refine h.store rfl (fun _ _ => .inl) (h.keyed k v hv) (h.attempts k v hv)
      (Finset.Subset.refl _) (h.raised k hmem) (.inl hmem) fun j w hne hj heq => ?_
    exact hne (h.distinct j k w v hj hv heq)

theorem Memory.saveFailed (h : Memory env s) (error : String) : Memory env (s.saveFailed error) :=
  Memory.foldl (fun _ k ht => ht.markKey k) s.dirtyKeys (h.degrade error)

/-- An eviction removes its key from all four tables. -/
theorem Memory.evict (h : Memory env s) (old : String) : Memory env (s.evict old) where
  acked := by
    intro p k hk
    have hmem := AList.mem_lookup_iff.mp hk
    obtain ⟨hin, hne⟩ := List.mem_filter.mp hmem
    have hold : s.ack.lookup p = some k := AList.mem_lookup_iff.mpr hin
    exact (AList.mem_erase).mpr ⟨by simpa using hne, h.acked p k hold⟩
  dirty := fun _ hk => (s.evict old).mem_of_dirty hk
  buffered := (s.evict old).buffered
  distinct := by
    intro k k' v v' hk hk' hrev
    exact h.distinct k k' v v' (lookup_erase_cases hk).2 (lookup_erase_cases hk').2 hrev
  numbered := fun k v hv => h.numbered k v (lookup_erase_cases hv).2
  capped := by
    have hlen : (s.evict old).entries.keys.length ≤ s.entries.keys.length := by
      show (s.entries.erase old).keys.length ≤ _
      rw [AList.keys_erase]
      exact List.length_erase_le
    exact hlen.trans h.capped
  attempts := fun k v hv => h.attempts k v (lookup_erase_cases hv).2
  keyed := fun k v hv => h.keyed k v (lookup_erase_cases hv).2
  raised := fun k hk => h.raised k (AList.mem_erase.mp hk).2

/-- The key is in none of the four tables. -/
structure State.Gone (s : State) (k : String) : Prop where
  entries : k ∉ s.entries
  dirty : k ∉ s.dirty
  persisted : k ∉ s.persisted
  ack : ∀ p, s.ack.lookup p ≠ some k

theorem State.evictee_mem {old : String} (h : s.evictee = some old) : old ∈ s.entries := by
  obtain ⟨e, he, rfl⟩ := Option.map_eq_some_iff.mp h
  have hsorted := List.mem_of_mem_head? he
  have hmem := (List.mem_filter.mp ((List.mem_insertionSort _).mp hsorted)).1
  exact AList.mem_keys.mpr (List.mem_map_of_mem hmem)

theorem State.evict_gone (s : State) (old : String) : (s.evict old).Gone old where
  entries := fun h => (AList.mem_erase.mp h).1 rfl
  dirty := fun h => (AList.mem_erase.mp h).1 rfl
  persisted := fun h => (AList.mem_erase.mp h).1 rfl
  ack := by
    intro p hp
    have hkept := (List.mem_filter.mp (AList.mem_lookup_iff.mp hp)).2
    simp at hkept

/-- There is room already, or a terminal entry goes. -/
theorem Memory.makeRoom {room : State} (h : Memory env s) (hroom : s.makeRoom = some room) :
    Memory env room ∧ room.entries.keys.length < cacheLimit ∧
      (room = s ∨ ∃ old, room = s.evict old) := by
  unfold State.makeRoom at hroom
  split at hroom
  · obtain ⟨old, hold, rfl⟩ := Option.map_eq_some_iff.mp hroom
    refine ⟨h.evict old, ?_, .inr ⟨old, rfl⟩⟩
    show (s.entries.erase old).keys.length < cacheLimit
    have hmem : old ∈ s.entries.keys := AList.mem_keys.mp (State.evictee_mem hold)
    have hpos : 0 < s.entries.keys.length := List.length_pos_of_mem hmem
    have hcap := h.capped
    rw [AList.keys_erase, List.length_erase_of_mem hmem]
    omega
  · rename_i hlt
    obtain rfl := Option.some.inj hroom
    exact ⟨h, Nat.lt_of_not_le hlt, .inl rfl⟩

/-- An admission: the command is new to the cache, and only an evicted key has left it. -/
structure Admission (env : Env) (s t : State) (k : String) : Prop where
  memory : Memory env t
  fresh : k ∉ s.entries
  lowered : ∃ b ∈ tombstones (env.sha256 k), b ∉ s.seen
  mem : k ∈ t.entries
  others : ∀ j w, j ≠ k → t.entries.lookup j = some w → s.entries.lookup j = some w
  left : ∀ j ∈ s.entries, j ∈ t.entries ∨ t.Gone j
  persisted : ∀ j ∈ t.persisted, j ∈ s.persisted
  seen : s.seen ⊆ t.seen

theorem Memory.reserve {t : State} {gateway boot now : String} {o : Order} {v : Snapshot}
    (h : Memory env s) (hres : s.reserve env gateway boot o now = .ok (t, v)) :
    Admission env s t o.key := by
  obtain ⟨hlow, room, hroom, rfl⟩ := State.reserve_ok hres
  have hseen : room.seen = s.seen := State.makeRoom_seen hroom
  obtain ⟨hmemory, hlt, hcases⟩ := h.makeRoom hroom
  have hfresh : o.key ∉ s.entries := by
    intro hmem
    obtain ⟨b, hb, hno⟩ := hlow
    exact hno (h.raised o.key hmem b hb)
  have hstart : ∀ k ∈ s.entries, k ∈ room.entries ∨ room.Gone k := by
    intro k hk
    rcases hcases with rfl | ⟨old, rfl⟩
    · exact .inl hk
    · by_cases heq : k = old
      · exact .inr (heq ▸ s.evict_gone old)
      · exact .inl (AList.mem_erase.mpr ⟨heq, hk⟩)
  have hold : ∀ k w, room.entries.lookup k = some w → s.entries.lookup k = some w := by
    intro k w hw
    rcases hcases with rfl | ⟨old, rfl⟩
    · exact hw
    · exact (lookup_erase_cases hw).2
  have hpersisted : ∀ k ∈ room.persisted, k ∈ s.persisted := by
    intro k hk
    rcases hcases with rfl | ⟨old, rfl⟩
    · exact hk
    · exact (AList.mem_erase.mp hk).2
  refine ⟨?_, hfresh, hlow, ?_, ?_, ?_, hpersisted, ?_⟩
  · refine hmemory.store rfl ?_ rfl ?_ Finset.subset_union_left ?_ (.inr hlt) ?_
    · intro p j hj
      by_cases hp : p = (o.port, o.ack)
      · subst hp
        exact .inr (Option.some.inj ((AList.lookup_insert _).symm.trans hj)).symm
      · exact .inl ((AList.lookup_insert_ne hp).symm.trans hj)
    · exact Nat.zero_le _
    · exact fun b hb => Finset.mem_union_right _ (List.mem_toFinset.mpr hb)
    · exact fun j w _ hw => Nat.ne_of_lt (Nat.lt_succ_of_le (hmemory.numbered j w hw))
  · exact (AList.mem_insert _).mpr (.inl rfl)
  · intro j w hne hw
    exact hold j w ((AList.lookup_insert_ne hne).symm.trans hw)
  · intro k hk
    have hne : k ≠ o.key := fun heq => hfresh (heq ▸ hk)
    rcases hstart k hk with hin | hgone
    · exact .inl ((AList.mem_insert _).mpr (.inr hin))
    · refine .inr ⟨?_, ?_, hgone.persisted, ?_⟩
      · exact fun hin => ((AList.mem_insert _).mp hin).elim hne hgone.entries
      · exact fun hin => ((AList.mem_insert _).mp hin).elim hne hgone.dirty
      · intro p hp
        by_cases hport : p = (o.port, o.ack)
        · subst hport
          exact hne (Option.some.inj ((AList.lookup_insert _).symm.trans hp)).symm
        · exact hgone.ack p ((AList.lookup_insert_ne hport).symm.trans hp)
  · rw [← hseen]
    exact Finset.subset_union_left

/-! ## Sections other than an admission -/

/-- The cache keeps its keys, its audit marks and the list of what the writer confirmed. -/
structure State.Keeps (s t : State) : Prop where
  mem : ∀ k, k ∈ t.entries ↔ k ∈ s.entries
  marked : ∀ k v w, s.entries.lookup k = some v → t.entries.lookup k = some w →
    v.auditIncomplete = true → w.auditIncomplete = true
  persisted : t.persisted = s.persisted
  seen : t.seen = s.seen

theorem State.Keeps.of_entries {t : State} (hentries : t.entries = s.entries)
    (hpersisted : t.persisted = s.persisted) (hseen : t.seen = s.seen) : s.Keeps t where
  mem := by rw [hentries]; exact fun _ => Iff.rfl
  marked := by
    intro k v w hv hw
    rw [hentries, hv] at hw
    obtain rfl := Option.some.inj hw
    exact id
  persisted := hpersisted
  seen := hseen

theorem State.Keeps.trans {t u : State} (h : s.Keeps t) (h' : t.Keeps u) : s.Keeps u where
  mem := fun k => (h'.mem k).trans (h.mem k)
  marked := by
    intro k v w hv hw hmark
    have hmem : k ∈ t.entries :=
      (h.mem k).mpr (AList.lookup_isSome.mp (Option.isSome_of_eq_some hv))
    obtain ⟨x, hx⟩ := Option.isSome_iff_exists.mp (AList.lookup_isSome.mpr hmem)
    exact h'.marked k x w hx hw (h.marked k v x hv hx hmark)
  persisted := h'.persisted.trans h.persisted
  seen := h'.seen.trans h.seen

/-- An entry is replaced by one that is marked if the old one was. -/
theorem State.Keeps.replace {t : State} {k : String} {v w : Snapshot}
    (hk : s.entries.lookup k = some v) (hentries : t.entries = s.entries.insert k w)
    (hmark : v.auditIncomplete = true → w.auditIncomplete = true)
    (hpersisted : t.persisted = s.persisted) (hseen : t.seen = s.seen) : s.Keeps t where
  mem := by
    intro j
    rw [hentries, AList.mem_insert]
    refine ⟨fun h => h.elim (fun heq => ?_) id, .inr⟩
    exact heq ▸ AList.lookup_isSome.mp (Option.isSome_of_eq_some hk)
  marked := by
    intro j x y hx hy hm
    rw [hentries] at hy
    rcases lookup_insert_cases hy with ⟨rfl, rfl⟩ | ⟨-, hy⟩
    · obtain rfl := Option.some.inj (hk.symm.trans hx)
      exact hmark hm
    · obtain rfl := Option.some.inj (hx.symm.trans hy)
      exact hm
  persisted := hpersisted
  seen := hseen

theorem State.keeps_foldl {f : State → String → State} (hf : ∀ (s : State) k, s.Keeps (f s k))
    (ks : List String) (s : State) : s.Keeps (ks.foldl f s) := by
  induction ks generalizing s with
  | nil => exact .of_entries rfl rfl rfl
  | cons k ks ih => exact (hf s k).trans (ih (f s k))

theorem State.keeps_update (s : State) (port : String) (ack : Option Nat)
    {change : Snapshot → Snapshot} (hchange : SourceChange change) (now : String) :
    s.Keeps (s.update port ack change now) := by
  unfold State.update
  split
  · exact .of_entries rfl rfl rfl
  · split
    · exact .of_entries rfl rfl rfl
    · split
      · exact .of_entries rfl rfl rfl
      · rename_i v hv
        refine .replace hv rfl (fun hmark => ?_) rfl rfl
        obtain ⟨_, _, htrim⟩ := trimAttempts_keeps { change v with updatedAt := now }
        exact htrim ((hchange.keeps v).2 hmark)

theorem State.keeps_rebase (s : State) (revision : Nat) : s.Keeps (s.rebase revision) := by
  have hraise : s.Keeps (s.raise revision) := .of_entries rfl rfl rfl
  refine hraise.trans (State.keeps_foldl (fun t k => ?_) _ _)
  unfold State.rebaseKey
  split
  · exact .of_entries rfl rfl rfl
  · rename_i v hv
    exact .replace hv rfl (fun _ => rfl) rfl rfl

theorem State.keeps_saveFailed (s : State) (error : String) : s.Keeps (s.saveFailed error) := by
  have hdegrade : s.Keeps (s.degrade error) := .of_entries rfl rfl rfl
  refine hdegrade.trans (State.keeps_foldl (fun t k => ?_) _ _)
  unfold State.markKey
  split
  · exact .of_entries rfl rfl rfl
  · rename_i v hv
    exact .replace hv rfl (fun _ => rfl) rfl rfl

end Sections

end RcdServer.Tracking
