import Mathlib.Data.List.TakeWhile
import RcdServer.LowerLogs.Streams

/-!
# What both sides agree on

Every copy of an event, wherever a crash or a lost reply has left it, is the one its stream holds
under its sequence. The cursor of a boot marks a piece of its stream that is in the file, and the
sender's backlog goes on where that piece ends or before.
-/
namespace RcdServer.LowerLogs

open Lib Lib.Run

variable {setup : Setup} {stream : Nat → List Event} {w w' : World}

/-! ## Moves -/

/-- What a step can do. -/
inductive Moved (setup : Setup) (w : World) : World → Prop where
  | push (s : Sender) (record : PendingRecord) (hs : w.sender = some s)
      (hidle : s.awaiting = none) :
      Moved setup w { w with sender := some (s.push setup record) }
  | flush (s : Sender) (save : SpoolSave) (hs : w.sender = some s) (hidle : s.awaiting = none) :
      Moved setup w (flush setup w s save)
  | send (s : Sender) (hs : w.sender = some s) (hne : s.queue ≠ []) :
      Moved setup w { w with
        sender := some { s with awaiting := some (w.attempts, nextBatch s.queue s.batchSize) }
        attempts := w.attempts + 1
        requests := (w.attempts, nextBatch s.queue s.batchSize) :: w.requests }
  | receive (s : Sender) (id : Nat) (batch : List Event) (reply : Option Ack) (save : SpoolSave)
      (hs : w.sender = some s) (hawaiting : s.awaiting = some (id, batch))
      (hreply : (id, reply) ∈ w.replies) : Moved setup w (w.attemptEnded s batch reply save)
  | fail (s : Sender) (save : SpoolSave) (hs : w.sender = some s) :
      Moved setup w (w.attemptFailed s save)
  | stop (s : Sender) (save : SpoolSave) (hs : w.sender = some s) :
      Moved setup w { (if s.spoolDirty then w.saveSpool s.queue save else w) with sender := none }
  | crash (spool : List Event) (hspool : spool ∈ w.versions ∨ spool = w.spool) :
      Moved setup w { w with sender := none, spool := spool }
  | start (batchSize lines : Nat) : Moved setup w (startWorker w batchSize lines)
  | lose (id : Nat) : Moved setup w { w with requests := w.requests.filter (·.1 != id) }
  | take (id receivedAt : Nat) (batch : List Event) (hrequest : (id, batch) ∈ w.requests) :
      Moved setup w (takeRequest setup w id receivedAt batch)
  | append (job : Job) (hjob : w.job = some job) : Moved setup w (appendValues setup w job)
  | refuse (job : Job) : Moved setup w (w.answer job.id none)
  | commit (job : Job) (hjob : w.job = some job) (happended : job.appended = true)
      (reply : Option Ack)
      (hreply : ∀ ack ∈ reply,
        ack = ⟨job.bootId, (job.values.getLast?.map (·.sequence)).getD 0⟩) :
      Moved setup w ((w.saveCursor job).answer job.id reply)
  | managerCrash : Moved setup w { w with job := none }
  | managerPowerLoss (kept : Nat → Nat) :
      Moved setup w { w with
        job := none
        cursor := fun b => min (w.cursor b) (kept b)
        accepted := fun b => (w.accepted b).take (kept b)
        rolledBack := true }

theorem mem_of_lookup {β : Type} {l : List (Nat × β)} {k : Nat} {v : β}
    (h : l.lookup k = some v) : (k, v) ∈ l := by
  obtain ⟨before, after, rfl, -⟩ := List.lookup_eq_some_iff.mp h
  simp

theorem moved_of_step {a : Step} (h : step setup w a = some w') : Moved setup w w' := by
  cases a with
  | push timestamp level target message =>
    obtain ⟨s, hs, h⟩ := Option.bind_eq_some_iff.mp h
    split at h
    · next hidle => exact Option.some.inj h ▸ .push s _ hs hidle
    · cases h
  | flush save =>
    obtain ⟨s, hs, h⟩ := Option.bind_eq_some_iff.mp h
    split at h
    · next hidle => exact Option.some.inj h ▸ .flush s save hs hidle.1
    · cases h
  | send =>
    obtain ⟨s, hs, h⟩ := Option.bind_eq_some_iff.mp h
    split at h
    · next hidle => exact Option.some.inj h ▸ .send s hs hidle.2
    · cases h
  | receive save =>
    obtain ⟨s, hs, h⟩ := Option.bind_eq_some_iff.mp h
    obtain ⟨attempt, hattempt, h⟩ := Option.bind_eq_some_iff.mp h
    obtain ⟨reply, hreply, h⟩ := Option.map_eq_some_iff.mp h
    exact h ▸ .receive s attempt.1 attempt.2 reply save hs hattempt (mem_of_lookup hreply)
  | fail save =>
    obtain ⟨s, hs, h⟩ := Option.bind_eq_some_iff.mp h
    obtain ⟨_, _, h⟩ := Option.map_eq_some_iff.mp h
    exact h ▸ .fail s save hs
  | stop save =>
    obtain ⟨s, hs, h⟩ := Option.bind_eq_some_iff.mp h
    split at h
    · exact Option.some.inj h ▸ .stop s save hs
    · cases h
  | crash version =>
    obtain ⟨s, hs, h⟩ := Option.map_eq_some_iff.mp h
    refine h ▸ .crash _ ?_
    cases hv : version.bind (w.versions[·]?) with
    | none => exact .inr rfl
    | some v =>
      obtain ⟨i, -, hi⟩ := Option.bind_eq_some_iff.mp hv
      exact .inl (List.mem_of_getElem? hi)
  | start batchSize lines =>
    simp only [step] at h
    split at h
    · exact Option.some.inj h ▸ .start batchSize lines
    · cases h
  | lose id => exact Option.some.inj h ▸ .lose id
  | take id receivedAt =>
    simp only [step] at h
    split at h
    · obtain ⟨batch, hbatch, h⟩ := Option.map_eq_some_iff.mp h
      exact h ▸ .take id receivedAt batch (mem_of_lookup hbatch)
    · cases h
  | append =>
    obtain ⟨job, hjob, h⟩ := Option.bind_eq_some_iff.mp h
    split at h
    · cases h
    · exact Option.some.inj h ▸ .append job hjob
  | appendFailed =>
    obtain ⟨job, hjob, h⟩ := Option.bind_eq_some_iff.mp h
    split at h
    · cases h
    · exact Option.some.inj h ▸ .refuse job
  | commit =>
    obtain ⟨job, hjob, h⟩ := Option.bind_eq_some_iff.mp h
    split at h
    · next happended =>
      exact Option.some.inj h ▸ .commit job hjob happended _ (by simp)
    · cases h
  | commitFailed stored =>
    obtain ⟨job, hjob, h⟩ := Option.bind_eq_some_iff.mp h
    split at h
    · next happended =>
      cases stored with
      | true => exact Option.some.inj h ▸ .commit job hjob happended none (by simp)
      | false => exact Option.some.inj h ▸ .refuse job
    · cases h
  | managerCrash => exact Option.some.inj h ▸ .managerCrash
  | managerPowerLoss kept => exact Option.some.inj h ▸ .managerPowerLoss kept

/-! ## The invariant -/

/-- The events of a request under the lock go on where the cursor stands. -/
structure Job.Ready (stream : Nat → List Event) (w : World) (job : Job) : Prop where
  known : ∀ e ∈ job.values, InStream stream e ∧ e.bootId = job.bootId
  nonempty : job.values ≠ []
  next : Consecutive (w.cursor job.bootId + 1) job.values
  stored : job.appended = true → ∀ e ∈ job.values, e ∈ w.appended

/-- An acknowledged piece of a stream is in the file. -/
structure Ack.Sound (stream : Nat → List Event) (w : World) (ack : Ack) : Prop where
  covered : Covered stream w.appended ack.bootId ack.acceptedThrough
  accepted : w.rolledBack = false → ack.acceptedThrough ≤ w.cursor ack.bootId

structure Ingested (stream : Nat → List Event) (w : World) : Prop where
  accepted : ∀ b, w.accepted b = (stream b).take (w.cursor b)
  covered : ∀ b, Covered stream w.appended b (w.cursor b)
  requests : ∀ r ∈ w.requests, r.1 < w.attempts ∧ ∀ e ∈ r.2, InStream stream e
  job : ∀ job ∈ w.job, job.Ready stream w
  replies : ∀ r ∈ w.replies, ∀ ack ∈ r.2, ack.Sound stream w
  removed : ∀ e ∈ w.removed, e ∈ w.appended

/-- A queue or a spool file: a backlog that the manager can go on with. -/
structure Retained (stream : Nat → List Event) (w : World) (events : List Event) : Prop where
  backlog : Backlog stream events
  reaches : w.rolledBack = false → Reaches w.cursor events

structure Sender.Ready (stream : Nat → List Event) (w : World) (s : Sender) : Prop where
  boot : s.bootId < w.boots
  numbered : (stream s.bootId).length = s.nextSequence
  retained : Retained stream w s.queue
  last : ∀ e ∈ s.queue.getLast?,
    if e.bootId = s.bootId then e.sequence = s.nextSequence else s.nextSequence = 0
  drained : s.queue = [] → w.rolledBack = false → s.nextSequence ≤ w.cursor s.bootId
  batchSize : 1 ≤ s.batchSize ∧ s.batchSize ≤ 500
  awaiting : ∀ attempt ∈ s.awaiting, attempt.1 < w.attempts ∧
    attempt.2 = nextBatch s.queue s.batchSize ∧ s.queue ≠ [] ∧
    ∀ r ∈ w.requests, r.1 = attempt.1 → r.2 = attempt.2

structure Inv (stream : Nat → List Event) (w : World) : Prop where
  numbered : Numbered stream
  unused : ∀ b, w.boots ≤ b → stream b = []
  ingested : Ingested stream w
  versions : ∀ v ∈ w.versions, Retained stream w v
  spool : w.spool ∈ w.versions
  empty : [] ∈ w.versions
  sender : ∀ s ∈ w.sender, s.Ready stream w

/-! ## Frames -/

section Frames

variable {stream' : Nat → List Event} {events : List Event} {s : Sender}

theorem Retained.mono (h : Retained stream w events) (hext : Extends stream stream')
    (hrolled : w'.rolledBack = false → w.rolledBack = false)
    (hcursor : w'.rolledBack = false → ∀ b, w.cursor b ≤ w'.cursor b) :
    Retained stream' w' events :=
  ⟨h.backlog.mono hext, fun hw => (h.reaches (hrolled hw)).mono (hcursor hw)⟩

theorem Retained.frame (h : Retained stream w events) (hrolled : w'.rolledBack = w.rolledBack)
    (hcursor : w'.cursor = w.cursor) : Retained stream w' events :=
  h.mono extends_refl (by simp [hrolled]) (by simp [hcursor])

theorem Ack.Sound.mono {ack : Ack} (h : ack.Sound stream w) (hext : Extends stream stream')
    (happended : ∀ e ∈ w.appended, e ∈ w'.appended)
    (hrolled : w'.rolledBack = false → w.rolledBack = false)
    (hcursor : w'.rolledBack = false → ∀ b, w.cursor b ≤ w'.cursor b) : ack.Sound stream' w' :=
  ⟨h.covered.mono hext happended,
    fun hw => Nat.le_trans (h.accepted (hrolled hw)) (hcursor hw _)⟩

theorem Job.Ready.mono {job : Job} (h : job.Ready stream w) (hext : Extends stream stream')
    (happended : ∀ e ∈ w.appended, e ∈ w'.appended) (hcursor : w'.cursor = w.cursor) :
    job.Ready stream' w' where
  known e he := ⟨(h.known e he).1.mono hext, (h.known e he).2⟩
  nonempty := h.nonempty
  next := hcursor ▸ h.next
  stored hstage e he := happended e (h.stored hstage e he)

/-- The sender's side may change and streams may grow. -/
theorem Ingested.mono (h : Ingested stream w) (hext : Extends stream stream')
    (hcursor : w'.cursor = w.cursor) (happended : w'.appended = w.appended)
    (haccepted : w'.accepted = w.accepted) (hjob : w'.job = w.job)
    (hreplies : w'.replies = w.replies) (hrolled : w'.rolledBack = w.rolledBack)
    (hattempts : w.attempts ≤ w'.attempts)
    (hrequests : ∀ r ∈ w'.requests, r ∈ w.requests ∨
      r.1 < w'.attempts ∧ ∀ e ∈ r.2, InStream stream' e)
    (hremoved : ∀ e ∈ w'.removed, e ∈ w'.appended) : Ingested stream' w' where
  accepted b := by
    rw [haccepted, hcursor, h.accepted b, take_of_extends hext (h.covered b).1]
  covered b := by
    rw [happended, hcursor]
    exact (h.covered b).mono hext fun _ he => he
  requests r hr := by
    rcases hrequests r hr with hold | hnew
    · obtain ⟨hid, hknown⟩ := h.requests r hold
      exact ⟨Nat.lt_of_lt_of_le hid hattempts, fun e he => (hknown e he).mono hext⟩
    · exact hnew
  job job hmem := by
    rw [hjob] at hmem
    exact (h.job job hmem).mono hext (by simp [happended]) hcursor
  replies r hr ack hack := by
    rw [hreplies] at hr
    exact (h.replies r hr ack hack).mono hext (by simp [happended]) (by simp [hrolled])
      (by simp [hcursor])
  removed := hremoved

/-- The manager's side may change. -/
theorem Sender.Ready.mono (h : s.Ready stream w) (hboots : w'.boots = w.boots)
    (hattempts : w'.attempts = w.attempts) (hrequests : ∀ r ∈ w'.requests, r ∈ w.requests)
    (hrolled : w'.rolledBack = false → w.rolledBack = false)
    (hcursor : w'.rolledBack = false → ∀ b, w.cursor b ≤ w'.cursor b) : s.Ready stream w' where
  boot := hboots ▸ h.boot
  numbered := h.numbered
  retained := h.retained.mono extends_refl hrolled hcursor
  last := h.last
  drained hqueue hw := Nat.le_trans (h.drained hqueue (hrolled hw)) (hcursor hw _)
  batchSize := h.batchSize
  awaiting attempt hattempt := by
    obtain ⟨hid, hbatch, hne, hreq⟩ := h.awaiting attempt hattempt
    exact ⟨hattempts ▸ hid, hbatch, hne, fun r hr => hreq r (hrequests r hr)⟩

theorem Sender.Ready.frame (h : s.Ready stream w) (hboots : w'.boots = w.boots)
    (hattempts : w'.attempts = w.attempts) (hrequests : w'.requests = w.requests)
    (hrolled : w'.rolledBack = w.rolledBack) (hcursor : w'.cursor = w.cursor) :
    s.Ready stream w' :=
  h.mono hboots hattempts (by simp [hrequests]) (by simp [hrolled]) (by simp [hcursor])

theorem Inv.manager (h : Inv stream w) (hingested : Ingested stream w')
    (hsender : w'.sender = w.sender) (hspool : w'.spool = w.spool)
    (hversions : w'.versions = w.versions) (hboots : w'.boots = w.boots)
    (hattempts : w'.attempts = w.attempts) (hrequests : ∀ r ∈ w'.requests, r ∈ w.requests)
    (hrolled : w'.rolledBack = false → w.rolledBack = false)
    (hcursor : w'.rolledBack = false → ∀ b, w.cursor b ≤ w'.cursor b) : Inv stream w' where
  numbered := h.numbered
  unused b hb := h.unused b (hboots ▸ hb)
  ingested := hingested
  versions v hv := (h.versions v (hversions ▸ hv)).mono extends_refl hrolled hcursor
  spool := by rw [hspool, hversions]; exact h.spool
  empty := hversions ▸ h.empty
  sender s hs := by
    rw [hsender] at hs
    exact (h.sender s hs).mono hboots hattempts hrequests hrolled hcursor

end Frames

/-! ## Moves of the sender -/

section SenderMoves

variable {s : Sender} {queue v : List Event} {save : SpoolSave}

theorem mem_versions_saveSpool (h : v ∈ (w.saveSpool queue save).versions) :
    v ∈ w.versions ∨ v = queue := by
  cases save with
  | saved => exact (List.mem_cons.mp h).symm
  | kept => exact .inl h
  | gone => exact .inl h

theorem Inv.saveSpool (h : Inv stream w) (hqueue : Retained stream w queue) (save : SpoolSave) :
    Inv stream (w.saveSpool queue save) := by
  have hframe : Ingested stream (w.saveSpool queue save) := by
    refine h.ingested.mono extends_refl ?_ ?_ ?_ ?_ ?_ ?_ ?_ ?_ ?_ <;> cases save
    all_goals first
      | rfl
      | exact Nat.le_refl _
      | exact fun r hr => .inl hr
      | exact h.ingested.removed
  cases save with
  | saved =>
    refine ⟨h.numbered, h.unused, hframe, ?_, List.mem_cons_self,
      List.mem_cons_of_mem _ h.empty, ?_⟩
    · intro v hv
      rcases List.mem_cons.mp hv with rfl | hv
      · exact hqueue.frame rfl rfl
      · exact (h.versions v hv).frame rfl rfl
    · exact fun s hs => (h.sender s hs).frame rfl rfl rfl rfl rfl
  | kept => exact h
  | gone =>
    refine ⟨h.numbered, h.unused, hframe, ?_, h.empty, h.empty, ?_⟩
    · exact fun v hv => (h.versions v hv).frame rfl rfl
    · exact fun s hs => (h.sender s hs).frame rfl rfl rfl rfl rfl

/-- Another sender, or none, over the same files. -/
theorem Inv.withSender (h : Inv stream w) (sender : Option Sender)
    (hsender : ∀ s ∈ sender, s.Ready stream w) : Inv stream { w with sender := sender } where
  numbered := h.numbered
  unused := h.unused
  ingested := h.ingested.mono extends_refl rfl rfl rfl rfl rfl rfl (Nat.le_refl _)
    (fun _ hr => .inl hr) h.ingested.removed
  versions v hv := (h.versions v hv).frame rfl rfl
  spool := h.spool
  empty := h.empty
  sender s hs := (hsender s hs).frame rfl rfl rfl rfl rfl

/-- A stream of the sender's boot grows, or a stream of an unused boot begins. -/
theorem Inv.extend {stream' : Nat → List Event} (h : Inv stream w) (hext : Extends stream stream')
    (hnumbered : Numbered stream') {boots : Nat}
    (hunused : ∀ b, boots ≤ b → stream' b = []) :
    Inv stream' { w with sender := none, boots := boots } where
  numbered := hnumbered
  unused := hunused
  ingested := h.ingested.mono hext rfl rfl rfl rfl rfl rfl (Nat.le_refl _) (fun _ hr => .inl hr)
    h.ingested.removed
  versions v hv := (h.versions v hv).mono hext id fun _ _ => Nat.le_refl _
  spool := h.spool
  empty := h.empty
  sender s hs := by cases hs

theorem inv_push (h : Inv stream w) (hs : w.sender = some s) (hidle : s.awaiting = none)
    (record : PendingRecord) :
    ∃ stream', Inv stream' { w with sender := some (s.push setup record) } := by
  have hready := h.sender s hs
  generalize he : s.storedEvent setup record = e
  have hboot : e.bootId = s.bootId := by rw [← he]; rfl
  have hseq : e.sequence = s.nextSequence + 1 := by rw [← he]; rfl
  set stream' := Function.update stream e.bootId (stream e.bootId ++ [e]) with hstream
  have hext : Extends stream stream' := extends_update (List.prefix_append _ _)
  have hself : stream' s.bootId = stream s.bootId ++ [e] := by
    rw [hstream, hboot, Function.update_self]
  have hlen : e.sequence = (stream e.bootId).length + 1 := by
    rw [hboot, hready.numbered, hseq]
  have hin : InStream stream' e := by
    refine ⟨s.nextSequence, hseq, ?_⟩
    rw [hboot, hself, ← hready.numbered, List.getElem?_concat_length]
  have hinv : Inv stream' { w with sender := none, boots := w.boots } := by
    refine h.extend hext (h.numbered.concat hlen) fun b hb => ?_
    have hne : b ≠ e.bootId := by
      have := hready.boot
      omega
    rw [hstream, Function.update_of_ne hne]
    exact h.unused b hb
  refine ⟨stream', hinv.withSender (some (s.push setup record)) ?_⟩
  intro t ht
  obtain rfl : s.push setup record = t := Option.some.inj ht
  have hqueue : (s.push setup record).queue = s.queue ++ [e] := by rw [← he]; rfl
  refine ⟨hready.boot, ?_, ⟨?_, ?_⟩, ?_, ?_, hready.batchSize, ?_⟩
  · show (stream' s.bootId).length = s.nextSequence + 1
    rw [hself, List.length_append, hready.numbered]
    rfl
  · rw [hqueue]
    refine (hready.retained.backlog.mono hext).concat hin fun last hlast => ?_
    have hpos := hready.last last hlast
    unfold Linked
    split <;> split at hpos <;> omega
  · rw [hqueue]
    intro hrolled x hx
    cases hq : s.queue with
    | nil =>
      obtain rfl : e = x := by simpa [hq] using hx
      have := hready.drained hq hrolled
      rw [hseq, hboot]
      show s.nextSequence + 1 ≤ w.cursor s.bootId + 1
      omega
    | cons y ys =>
      refine hready.retained.reaches hrolled x ?_
      rw [hq] at hx ⊢
      exact hx
  · rw [hqueue]
    intro x hx
    obtain rfl : e = x := by simpa using hx
    exact Eq.mpr (if_pos hboot) hseq
  · rw [hqueue]
    intro hnil
    simp at hnil
  · intro attempt hattempt
    have : (s.push setup record).awaiting = none := hidle
    rw [this] at hattempt
    cases hattempt

theorem inv_rebased (h : Inv stream w) (hs : w.sender = some s) (hidle : s.awaiting = none) :
    ∃ stream', Inv stream' { w with sender := some (s.rebased setup w.boots), boots := w.boots + 1 } ∧
      (s.rebased setup w.boots).Ready stream' { w with
        sender := some (s.rebased setup w.boots), boots := w.boots + 1 } := by
  have hready := h.sender s hs
  set t := s.rebased setup w.boots with ht
  generalize hevents : dropUntil setup s.queue.length s.queue = events
  have hqueue : t.queue = rebase w.boots events := by rw [ht, ← hevents]; rfl
  have hnext : t.nextSequence = events.length := by rw [ht, ← hevents]; rfl
  have hboot : t.bootId = w.boots := rfl
  set stream' := Function.update stream w.boots (rebase w.boots events) with hstream
  have hself : stream' w.boots = rebase w.boots events := by rw [hstream, Function.update_self]
  have hext : Extends stream stream' := by
    refine extends_update ?_
    rw [h.unused _ (Nat.le_refl _)]
    exact List.nil_prefix
  have hinv : Inv stream' { w with sender := none, boots := w.boots + 1 } := by
    refine h.extend hext (h.numbered.rebase _ _) fun b hb => ?_
    have hne : b ≠ w.boots := by omega
    rw [hstream, Function.update_of_ne hne]
    exact h.unused b (by omega)
  have htready : t.Ready stream' { w with sender := some t, boots := w.boots + 1 } := by
    refine ⟨?_, ?_, ⟨?_, ?_⟩, ?_, ?_, hready.batchSize, ?_⟩
    · show w.boots < w.boots + 1
      omega
    · rw [hboot, hself, hnext, length_rebase]
    · rw [hqueue]
      exact backlog_rebase hself
    · rw [hqueue]
      intro _ x hx
      rw [head?_rebase hx]
      omega
    · rw [hqueue]
      intro x hx
      obtain ⟨hx, hseq⟩ := getLast?_rebase hx
      exact Eq.mpr (if_pos (hx.trans hboot.symm)) (hseq.trans hnext.symm)
    · intro hnil _
      have hlen : events.length = 0 := by
        rw [← length_rebase w.boots events, ← hqueue, hnil]
        rfl
      rw [hnext, hlen]
      exact Nat.zero_le _
    · intro attempt hattempt
      have : t.awaiting = none := hidle
      rw [this] at hattempt
      cases hattempt
  exact ⟨stream', hinv.withSender (some t) fun u hu => by
    obtain rfl : t = u := Option.some.inj hu
    exact htready.frame rfl rfl rfl rfl rfl, htready⟩

theorem Sender.Ready.saveSpool (h : s.Ready stream w) (queue : List Event) (save : SpoolSave) :
    s.Ready stream (w.saveSpool queue save) := by
  cases save <;> exact h.frame rfl rfl rfl rfl rfl

theorem Sender.Ready.marked (h : s.Ready stream w) (dirty : Bool) :
    Sender.Ready stream w { s with spoolDirty := dirty } :=
  ⟨h.boot, h.numbered, h.retained, h.last, h.drained, h.batchSize, h.awaiting⟩

theorem Sender.Ready.ended (h : s.Ready stream w) (dirty : Bool) :
    Sender.Ready stream w { s with spoolDirty := dirty, awaiting := none } :=
  ⟨h.boot, h.numbered, h.retained, h.last, h.drained, h.batchSize, by simp⟩

theorem inv_flush (h : Inv stream w) (hs : w.sender = some s) (hidle : s.awaiting = none)
    (save : SpoolSave) : ∃ stream', Inv stream' (flush setup w s save) := by
  unfold flush
  split
  · have hready := h.sender s hs
    refine ⟨stream, (h.saveSpool hready.retained save).withSender _ ?_⟩
    intro t ht
    exact Option.some.inj ht ▸ (hready.saveSpool s.queue save).marked save.failed
  · obtain ⟨stream', hinv, hready⟩ := @inv_rebased setup _ _ _ h hs hidle
    have hsaved := (hinv.saveSpool hready.retained save).withSender
      (some { s.rebased setup w.boots with spoolDirty := save.failed }) fun t ht =>
        Option.some.inj ht ▸ (hready.saveSpool _ save).marked save.failed
    refine ⟨stream', ?_⟩
    cases save <;> exact hsaved

theorem mem_of_mem_nextBatch {max : Nat} {e : Event} (h : e ∈ nextBatch queue max) :
    e ∈ queue := by
  unfold nextBatch at h
  split at h
  · cases h
  · exact (List.takeWhile_prefix _).subset (List.mem_of_mem_take h)

theorem inv_send (h : Inv stream w) (hs : w.sender = some s) (hne : s.queue ≠ []) :
    Inv stream { w with
      sender := some { s with awaiting := some (w.attempts, nextBatch s.queue s.batchSize) }
      attempts := w.attempts + 1
      requests := (w.attempts, nextBatch s.queue s.batchSize) :: w.requests } where
  numbered := h.numbered
  unused := h.unused
  ingested := by
    refine h.ingested.mono extends_refl rfl rfl rfl rfl rfl rfl (Nat.le_succ _) ?_
      h.ingested.removed
    intro r hr
    rcases List.mem_cons.mp hr with rfl | hr
    · refine .inr ⟨Nat.lt_succ_self _, fun e he => ?_⟩
      exact (h.sender s hs).retained.backlog.known e (mem_of_mem_nextBatch he)
    · exact .inl hr
  versions v hv := (h.versions v hv).frame rfl rfl
  spool := h.spool
  empty := h.empty
  sender t ht := by
    obtain rfl := Option.some.inj ht
    have hready := h.sender s hs
    refine ⟨hready.boot, hready.numbered, ⟨hready.retained.backlog, hready.retained.reaches⟩,
      hready.last, hready.drained, hready.batchSize, ?_⟩
    intro attempt hattempt
    obtain rfl := Option.some.inj hattempt
    refine ⟨Nat.lt_succ_self _, rfl, hne, ?_⟩
    intro r hr hid
    rcases List.mem_cons.mp hr with rfl | hr
    · rfl
    · have := (h.ingested.requests r hr).1
      exact absurd hid (by omega)

theorem inv_attemptFailed (h : Inv stream w) (hs : w.sender = some s) (save : SpoolSave) :
    Inv stream (w.attemptFailed s save) := by
  have hready := h.sender s hs
  unfold World.attemptFailed
  dsimp only
  split
  · refine (h.saveSpool hready.retained save).withSender _ fun t ht => ?_
    exact Option.some.inj ht ▸ (hready.saveSpool _ save).ended false
  · refine h.withSender _ fun t ht => ?_
    exact Option.some.inj ht ▸ hready.ended false

/-- Removed events are in the file, and the rest of the queue is as good as the queue was. -/
theorem Sender.Ready.acknowledged (h : s.Ready stream w) {boot through : Nat}
    (hthrough : w.rolledBack = false → through ≤ w.cursor boot) (dirty : Bool) :
    Sender.Ready stream w { s with
      queue := s.queue.dropWhile (Sender.covered boot through), spoolDirty := dirty,
      awaiting := none } := by
  have hsuffix := List.dropWhile_suffix (Sender.covered boot through) (l := s.queue)
  refine ⟨h.boot, h.numbered, ⟨h.retained.backlog.of_rest hsuffix, ?_⟩, ?_, ?_, h.batchSize,
    by simp⟩
  · intro hrolled
    exact (h.retained.reaches hrolled).dropWhile_covered h.retained.backlog.linked
      (hthrough hrolled)
  · intro e he
    refine h.last e ?_
    obtain ⟨front, hfront⟩ := hsuffix
    rw [← hfront, List.getLast?_append, he]
    rfl
  · intro hnil hrolled
    cases hlast : s.queue.getLast? with
    | none => exact h.drained (List.getLast?_eq_none_iff.mp hlast) hrolled
    | some e =>
      have hpos := h.last e hlast
      have hcovered : Sender.covered boot through e = true :=
        List.dropWhile_eq_nil_iff.mp hnil e (List.mem_of_getLast? hlast)
      simp only [Sender.covered, Bool.and_eq_true, beq_iff_eq, decide_eq_true_eq] at hcovered
      have hle := hthrough hrolled
      show s.nextSequence ≤ w.cursor s.bootId
      split at hpos
      · next hboot =>
        rw [← hboot, hcovered.1]
        omega
      · omega

theorem postBatch_eq_some {events : List Event} {reply : Option Ack} {through : Nat}
    (h : postBatch events reply = some through) :
    ∃ first rest ack, events = first :: rest ∧ reply = some ack ∧ ack.bootId = first.bootId ∧
      ack.acceptedThrough = through ∧ first.sequence ≤ through := by
  unfold postBatch at h
  split at h
  · next first rest ack =>
    split at h
    · cases h
    split at h
    · cases h
    split at h
    · cases h
    next hboot hfirst _ =>
    obtain rfl := Option.some.inj h
    exact ⟨first, rest, ack, rfl, rfl, not_not.mp hboot, rfl, Nat.le_of_not_lt hfirst⟩
  · cases h

theorem Inv.withRemoved (h : Inv stream w) (removed : List Event)
    (hremoved : ∀ e ∈ removed, e ∈ w.appended) : Inv stream { w with removed := removed } where
  numbered := h.numbered
  unused := h.unused
  ingested := h.ingested.mono extends_refl rfl rfl rfl rfl rfl rfl (Nat.le_refl _)
    (fun _ hr => .inl hr) hremoved
  versions v hv := (h.versions v hv).frame rfl rfl
  spool := h.spool
  empty := h.empty
  sender s hs := (h.sender s hs).frame rfl rfl rfl rfl rfl

theorem inv_attemptEnded (h : Inv stream w) (hs : w.sender = some s) {attempt : Nat}
    {batch : List Event} {reply : Option Ack} (hreply : (attempt, reply) ∈ w.replies)
    (save : SpoolSave) : Inv stream (w.attemptEnded s batch reply save) := by
  have hready := h.sender s hs
  unfold World.attemptEnded
  split
  · next through first hpost hhead =>
    obtain ⟨first', rest, ack, rfl, rfl, hboot, hthrough, -⟩ := postBatch_eq_some hpost
    obtain rfl : first' = first := by simpa using hhead
    have hsound := h.ingested.replies _ hreply ack rfl
    have hcursor : w.rolledBack = false → through ≤ w.cursor first'.bootId := by
      rw [← hthrough, ← hboot]
      exact hsound.accepted
    have hready' := hready.acknowledged hcursor save.failed
    have hsaved := h.saveSpool hready'.retained save
    have hremoved : ∀ e ∈ w.removed ++ s.queue.takeWhile (Sender.covered first'.bootId through),
        e ∈ w.appended := by
      intro e he
      rcases List.mem_append.mp he with he | he
      · exact h.ingested.removed e he
      · have hcovered := List.mem_takeWhile_imp he
        simp only [Sender.covered, Bool.and_eq_true, beq_iff_eq, decide_eq_true_eq] at hcovered
        have hknown := hready.retained.backlog.known e ((List.takeWhile_prefix _).subset he)
        refine Covered.mem ?_ hknown hcovered.2
        rw [hcovered.1, ← hthrough, ← hboot]
        exact hsound.covered
    have hfile : (w.saveSpool (s.queue.dropWhile (Sender.covered first'.bootId through))
        save).appended = w.appended := by cases save <;> rfl
    have hlater := hready'.saveSpool (s.queue.dropWhile (Sender.covered first'.bootId through)) save
    refine (hsaved.withRemoved _ (hfile ▸ hremoved)).withSender (some _) fun t ht => ?_
    exact Option.some.inj ht ▸ hlater.frame rfl rfl rfl rfl rfl
  · exact inv_attemptFailed h hs save

theorem inv_stop (h : Inv stream w) (hs : w.sender = some s) (save : SpoolSave) :
    Inv stream
      { (if s.spoolDirty then w.saveSpool s.queue save else w) with sender := none } := by
  split
  · exact (h.saveSpool (h.sender s hs).retained save).withSender none (by simp)
  · exact h.withSender none (by simp)

theorem inv_crash (h : Inv stream w) {spool : List Event}
    (hspool : spool ∈ w.versions ∨ spool = w.spool) :
    Inv stream { w with sender := none, spool := spool } where
  numbered := h.numbered
  unused := h.unused
  ingested := h.ingested.mono extends_refl rfl rfl rfl rfl rfl rfl (Nat.le_refl _)
    (fun _ hr => .inl hr) h.ingested.removed
  versions v hv := (h.versions v hv).frame rfl rfl
  spool := by
    rcases hspool with hspool | rfl
    · exact hspool
    · exact h.spool
  empty := h.empty
  sender s hs := by cases hs

theorem inv_start (h : Inv stream w) (batchSize lines : Nat) :
    Inv stream (startWorker w batchSize lines) := by
  have hinv : Inv stream { w with sender := none, boots := w.boots + 1 } :=
    h.extend extends_refl h.numbered fun b hb => h.unused b (by omega)
  refine hinv.withSender (some _) fun t ht => ?_
  obtain rfl := Option.some.inj ht
  have hspool := h.versions _ h.spool
  have hfront : w.spool.take lines <+: w.spool := List.take_prefix _ _
  refine ⟨Nat.lt_succ_self _, ?_, ⟨hspool.backlog.of_front hfront, ?_⟩, ?_, ?_, ?_, by simp⟩
  · show (stream w.boots).length = 0
    rw [h.unused _ (Nat.le_refl _)]
    rfl
  · exact fun hrolled => (hspool.reaches hrolled).of_front hfront
  · intro e he
    -- the new boot identifier is on no line of the file
    obtain ⟨i, -, hget⟩ := hspool.backlog.known e (hfront.subset (List.mem_of_getLast? he))
    have hne : e.bootId ≠ w.boots := by
      intro hboot
      rw [hboot, h.unused _ (Nat.le_refl _)] at hget
      cases hget
    exact Eq.mpr (if_neg hne) rfl
  · exact fun _ _ => Nat.zero_le _
  · constructor <;> dsimp only <;> omega

end SenderMoves

/-! ## Moves of the manager -/

section ManagerMoves

variable {id : Nat} {events values : List Event} {first : Event} {reply : Option Ack} {job : Job}

/-- A batch passes when it numbers one boot without a gap and keeps the limits. -/
theorem validateLowerLogBatch_iff :
    validateLowerLogBatch setup (first :: events) = true ↔
      first.sequence ≠ 0 ∧ (first :: events).length ≤ 500 ∧
      Consecutive first.sequence (first :: events) ∧
      ∀ e ∈ first :: events, e.bootId = first.bootId ∧ withinLimits e = true := by
  have hall : (∀ p ∈ (first :: events).zipIdx, (p.1.bootId = first.bootId ∧
        p.1.sequence = first.sequence + p.2) ∧ withinLimits p.1 = true) ↔
      Consecutive first.sequence (first :: events) ∧
        ∀ e ∈ first :: events, e.bootId = first.bootId ∧ withinLimits e = true := by
    have hcons := @consecutive_iff_zipIdx (first :: events) first.sequence 0
    rw [Nat.add_zero] at hcons
    rw [hcons]
    constructor
    · intro h
      refine ⟨fun p hp => (h p hp).1.2, fun e he => ?_⟩
      obtain ⟨i, hi⟩ := List.mem_iff_getElem?.mp he
      have hmem := h (e, i) (List.mem_zipIdx_iff_getElem?.mpr hi)
      exact ⟨hmem.1.1, hmem.2⟩
    · rintro ⟨hseq, hsame⟩ p hp
      have hmem := List.fst_mem_of_mem_zipIdx hp
      exact ⟨⟨(hsame _ hmem).1, hseq p hp⟩, (hsame _ hmem).2⟩
  simp only [validateLowerLogBatch, Bool.and_eq_true, bne_iff_ne, decide_eq_true_eq, beq_iff_eq,
    List.all_eq_true, setup.sourceId_valid, setup.bootText_valid, true_and]
  rw [hall, and_assoc]
  rfl

theorem ingestLowerLogs_append {c : Nat} (h : ingestLowerLogs c events = .append values)
    {n : Nat} (hcons : Consecutive n events) :
    values ≠ [] ∧ Consecutive (c + 1) values ∧ values <:+ events := by
  unfold ingestLowerLogs at h
  split at h
  · cases h
  split at h
  · cases h
  split at h
  · cases h
  next e rest hdrop =>
  split at h
  · cases h
  next hnext =>
  obtain rfl := Ingest.append.inj h
  obtain ⟨m, hm⟩ := hcons.dropWhile fun e => e.sequence ≤ c
  rw [hdrop] at hm
  refine ⟨by simp, ?_, hdrop ▸ List.dropWhile_suffix _⟩
  have hfirst : e.sequence = c + 1 := not_not.mp hnext
  rw [← hfirst, hm.1]
  exact ⟨hm.1, hm.2⟩

theorem ingestLowerLogs_ack {c through : Nat} (h : ingestLowerLogs c events = .ack through) :
    through = c := by
  unfold ingestLowerLogs at h
  repeat' split at h
  all_goals first
    | exact (Ingest.ack.inj h).symm
    | cases h

theorem inv_answer (h : Inv stream w) (id : Nat) (hreply : ∀ ack ∈ reply, ack.Sound stream w) :
    Inv stream (w.answer id reply) := by
  refine h.manager ?_ rfl rfl rfl rfl rfl (fun _ hr => hr) (fun hw => hw)
    fun _ _ => Nat.le_refl _
  refine ⟨h.ingested.accepted, h.ingested.covered, h.ingested.requests, by simp [World.answer], ?_,
    h.ingested.removed⟩
  intro r hr ack hack
  rcases List.mem_cons.mp hr with rfl | hr
  · have hsound := hreply ack hack
    exact ⟨hsound.covered, hsound.accepted⟩
  · have hsound := h.ingested.replies r hr ack hack
    exact ⟨hsound.covered, hsound.accepted⟩

theorem inv_withJob (h : Inv stream w) (hjob : ∀ job' ∈ some job, job'.Ready stream w) :
    Inv stream { w with job := some job } := by
  refine h.manager ?_ rfl rfl rfl rfl rfl (fun _ hr => hr) (fun hw => hw)
    fun _ _ => Nat.le_refl _
  refine ⟨h.ingested.accepted, h.ingested.covered, h.ingested.requests, ?_, ?_, h.ingested.removed⟩
  · intro job' hmem
    exact (hjob job' hmem).mono extends_refl (fun _ he => he) rfl
  · intro r hr ack hack
    have hsound := h.ingested.replies r hr ack hack
    exact ⟨hsound.covered, hsound.accepted⟩

theorem inv_lose (h : Inv stream w) (id : Nat) :
    Inv stream { w with requests := w.requests.filter (·.1 != id) } := by
  refine h.manager ?_ rfl rfl rfl rfl rfl (fun _ hr => List.mem_of_mem_filter hr) (fun hw => hw)
    fun _ _ => Nat.le_refl _
  exact h.ingested.mono extends_refl rfl rfl rfl rfl rfl rfl (Nat.le_refl _)
    (fun _ hr => .inl (List.mem_of_mem_filter hr)) h.ingested.removed

theorem inv_take (h : Inv stream w) (hrequest : (id, events) ∈ w.requests) (receivedAt : Nat) :
    Inv stream (takeRequest setup w id receivedAt events) := by
  have hknown := (h.ingested.requests _ hrequest).2
  have hlose := inv_lose h id
  unfold takeRequest
  dsimp only
  split
  · exact inv_answer hlose id (by simp)
  next hchecked =>
  cases events with
  | nil => exact inv_answer hlose id (by simp)
  | cons first rest =>
    obtain ⟨-, hvalid⟩ := not_or.mp hchecked
    obtain ⟨-, -, hcons, hsame⟩ :=
      validateLowerLogBatch_iff.mp (by simpa using hvalid)
    dsimp only [List.head?_cons]
    split
    · next through hingest =>
      obtain rfl := ingestLowerLogs_ack hingest
      refine inv_answer hlose id ?_
      intro ack hack
      obtain rfl := Option.some.inj hack
      exact ⟨h.ingested.covered _, fun _ => Nat.le_refl _⟩
    · exact inv_answer hlose id (by simp)
    · next values hingest =>
      obtain ⟨hne, hnext, hsuffix⟩ := ingestLowerLogs_append hingest hcons
      refine inv_withJob hlose ?_
      intro job' hjob'
      obtain rfl := Option.some.inj hjob'
      refine ⟨fun e he => ?_, hne, hnext, by simp⟩
      exact ⟨hknown e (hsuffix.subset he), (hsame e (hsuffix.subset he)).1⟩

theorem inv_append (h : Inv stream w) (hjob : w.job = some job) :
    Inv stream (appendValues setup w job) := by
  unfold appendValues
  split
  · exact inv_answer h _ (by simp)
  have hready := h.ingested.job job hjob
  have hsub : ∀ e ∈ w.appended, e ∈ w.appended ++ job.values :=
    fun e he => List.mem_append_left _ he
  refine h.manager ?_ rfl rfl rfl rfl rfl (fun _ hr => hr) (fun hw => hw)
    fun _ _ => Nat.le_refl _
  refine ⟨h.ingested.accepted, fun b => (h.ingested.covered b).mono extends_refl hsub,
    h.ingested.requests, ?_, ?_, fun e he => hsub e (h.ingested.removed e he)⟩
  · intro job' hjob'
    obtain rfl := Option.some.inj hjob'
    exact ⟨hready.known, hready.nonempty, hready.next,
      fun _ e he => List.mem_append_right _ he⟩
  · intro r hr ack hack
    have hsound := h.ingested.replies r hr ack hack
    exact ⟨hsound.covered.mono extends_refl hsub, hsound.accepted⟩

/-- A crash takes what stands under the lock. -/
theorem inv_managerCrash (h : Inv stream w) : Inv stream { w with job := none } := by
  refine h.manager ?_ rfl rfl rfl rfl rfl (fun _ hr => hr) (fun hw => hw)
    fun _ _ => Nat.le_refl _
  refine ⟨h.ingested.accepted, h.ingested.covered, h.ingested.requests, by simp, ?_,
    h.ingested.removed⟩
  intro r hr ack hack
  have hsound := h.ingested.replies r hr ack hack
  exact ⟨hsound.covered, hsound.accepted⟩

theorem Job.Ready.last (h : job.Ready stream w) :
    (job.values.getLast?.map (·.sequence)).getD 0 =
      w.cursor job.bootId + job.values.length := by
  have hlast := h.next.getLast h.nonempty
  rw [List.getLast?_eq_some_getLast h.nonempty]
  show (job.values.getLast h.nonempty).sequence = _
  omega

theorem World.saveCursor_cursor (w : World) (job : Job) : (w.saveCursor job).cursor =
    Function.update w.cursor job.bootId
      (max (w.cursor job.bootId) ((job.values.getLast?.map (·.sequence)).getD 0)) := rfl

theorem World.saveCursor_accepted (w : World) (job : Job) : (w.saveCursor job).accepted =
    Function.update w.accepted job.bootId (w.accepted job.bootId ++ job.values) := rfl

/-- The committed cursor stands behind the appended events. -/
theorem inv_saveCursor (h : Inv stream w) (hidle : w.job = none) (hready : job.Ready stream w)
    (happended : job.appended = true) :
    Inv stream (w.saveCursor job) ∧ (w.saveCursor job).cursor job.bootId =
      w.cursor job.bootId + job.values.length := by
  obtain ⟨htake, hlen⟩ :=
    take_append_consecutive (h.ingested.covered job.bootId).1 hready.next hready.known
  have hcursor : (w.saveCursor job).cursor job.bootId =
      w.cursor job.bootId + job.values.length := by
    rw [World.saveCursor_cursor, hready.last, Function.update_self]
    omega
  have hother : ∀ b, b ≠ job.bootId → (w.saveCursor job).cursor b = w.cursor b := by
    intro b hb
    rw [World.saveCursor_cursor, Function.update_of_ne hb]
  have hle : ∀ b, w.cursor b ≤ (w.saveCursor job).cursor b := by
    intro b
    rcases eq_or_ne b job.bootId with rfl | hb
    · omega
    · rw [hother b hb]
  refine ⟨?_, hcursor⟩
  refine h.manager ?_ rfl rfl rfl rfl rfl (fun _ hr => hr) (fun hw => hw) fun _ => hle
  refine ⟨?_, ?_, h.ingested.requests, by simp [World.saveCursor, hidle], ?_, h.ingested.removed⟩
  · intro b
    rcases eq_or_ne b job.bootId with rfl | hb
    · rw [hcursor, ← htake, ← h.ingested.accepted, World.saveCursor_accepted, Function.update_self]
    · rw [hother b hb, ← h.ingested.accepted, World.saveCursor_accepted, Function.update_of_ne hb]
  · intro b
    rcases eq_or_ne b job.bootId with rfl | hb
    · rw [hcursor]
      refine ⟨hlen, fun e he => ?_⟩
      rw [← htake] at he
      rcases List.mem_append.mp he with he | he
      · exact (h.ingested.covered job.bootId).2 e he
      · exact hready.stored happended e he
    · rw [hother b hb]
      exact h.ingested.covered b
  · intro r hr ack hack
    exact (h.ingested.replies r hr ack hack).mono extends_refl (fun _ he => he) (fun hw => hw)
      fun _ => hle

theorem inv_commit (h : Inv stream w) (hjob : w.job = some job) (happended : job.appended = true)
    (hreply : ∀ ack ∈ reply,
      ack = ⟨job.bootId, (job.values.getLast?.map (·.sequence)).getD 0⟩) :
    Inv stream ((w.saveCursor job).answer job.id reply) := by
  have hready := h.ingested.job job hjob
  have hlast := hready.last
  obtain ⟨hsaved, hcursor⟩ := inv_saveCursor (inv_managerCrash h) rfl
    (hready.mono extends_refl (fun _ he => he) rfl) happended
  refine inv_answer hsaved job.id ?_
  intro ack hack
  obtain rfl := hreply ack hack
  refine ⟨?_, fun _ => ?_⟩
  · rw [hlast, ← hcursor]
    exact hsaved.ingested.covered job.bootId
  · rw [hlast]
    exact Nat.le_of_eq hcursor.symm

theorem inv_managerPowerLoss (h : Inv stream w) (kept : Nat → Nat) :
    Inv stream { w with
      job := none
      cursor := fun b => min (w.cursor b) (kept b)
      accepted := fun b => (w.accepted b).take (kept b)
      rolledBack := true } := by
  refine h.manager ?_ rfl rfl rfl rfl rfl (fun _ hr => hr) (by simp) (by simp)
  refine ⟨?_, ?_, h.ingested.requests, by simp, ?_, h.ingested.removed⟩
  · intro b
    show (w.accepted b).take (kept b) = _
    rw [h.ingested.accepted, List.take_take, Nat.min_comm]
  · intro b
    obtain ⟨hlen, hmem⟩ := h.ingested.covered b
    refine ⟨Nat.le_trans (Nat.min_le_left _ _) hlen, fun e he => hmem e ?_⟩
    exact (List.take_prefix_take_left (Nat.min_le_left _ _)).subset he
  · intro r hr ack hack
    exact ⟨(h.ingested.replies r hr ack hack).covered, by simp⟩

end ManagerMoves

/-! ## Runs -/

theorem inv_initial : Inv (fun _ => []) World.initial where
  numbered := by
    intro b i e h
    simp at h
  unused _ _ := rfl
  ingested := by
    refine ⟨?_, ?_, ?_, ?_, ?_, ?_⟩ <;> simp [World.initial, Covered]
  versions v hv := by
    obtain rfl : v = [] := by simpa [World.initial] using hv
    exact ⟨Backlog.nil, fun _ => by simp [Reaches]⟩
  spool := by simp [World.initial]
  empty := by simp [World.initial]
  sender s hs := by cases hs

theorem inv_step (h : ∃ stream, Inv stream w) (hmoved : Moved setup w w') :
    ∃ stream, Inv stream w' := by
  obtain ⟨stream, h⟩ := h
  cases hmoved with
  | push s record hs hidle => exact inv_push h hs hidle record
  | flush s save hs hidle => exact inv_flush h hs hidle save
  | send s hs hne => exact ⟨stream, inv_send h hs hne⟩
  | receive s id batch reply save hs hawaiting hreply =>
    exact ⟨stream, inv_attemptEnded h hs hreply save⟩
  | fail s save hs => exact ⟨stream, inv_attemptFailed h hs save⟩
  | stop s save hs => exact ⟨stream, inv_stop h hs save⟩
  | crash spool hspool => exact ⟨stream, inv_crash h hspool⟩
  | start batchSize lines => exact ⟨stream, inv_start h batchSize lines⟩
  | lose id => exact ⟨stream, inv_lose h id⟩
  | take id receivedAt batch hrequest => exact ⟨stream, inv_take h hrequest receivedAt⟩
  | append job hjob => exact ⟨stream, inv_append h hjob⟩
  | refuse job => exact ⟨stream, inv_answer h job.id (by simp)⟩
  | commit job hjob happended reply hreply =>
    exact ⟨stream, inv_commit h hjob happended hreply⟩
  | managerCrash => exact ⟨stream, inv_managerCrash h⟩
  | managerPowerLoss kept => exact ⟨stream, inv_managerPowerLoss h kept⟩

theorem inv_run {run : List Step} (h : exec (step setup) World.initial run = some w) :
    ∃ stream, Inv stream w :=
  exec_invariant (fun w => ∃ stream, Inv stream w)
    (fun _ _ _ hinv hstep => inv_step hinv (moved_of_step hstep)) ⟨_, inv_initial⟩ h

end RcdServer.LowerLogs
