import RcdServer.LowerLogs.Delivery

/-!
# When a delivered request drains the queue

The manager answers a repeated batch with its cursor, and `post_batch` takes an answer beyond the
batch for an error. So a queue drains as long as the cursor has not passed the batch that is sent,
which a restart with smaller batches or an old spool file can bring about, and as long as the
events keep the limits of the manager.
-/
namespace RcdServer.LowerLogs

open Lib Lib.Run

variable {setup : Setup} {stream : Nat → List Event} {w : World} {s : Sender}
  {batch events : List Event} {first : Event} {id receivedAt : Nat} {save : SpoolSave}

/-- The manager can take the batch and the sender its answer. -/
structure Deliverable (setup : Setup) (w : World) (batch : List Event) (receivedAt : Nat) :
    Prop where
  body : bodyBytes setup batch ≤ maxLowerLogCompressedBody
  limits : ∀ e ∈ batch, withinLimits e = true
  lines : ∀ e ∈ batch, w.cursor e.bootId < e.sequence →
    lineBytes setup receivedAt e ≤ maxJSONLineBytes
  reached : ∀ e ∈ batch.head?, e.sequence ≤ w.cursor e.bootId + 1
  notPassed : ∀ e ∈ batch.getLast?, w.cursor e.bootId ≤ e.sequence

/-- What `IngestLowerLogs` answers when nothing but the length of a line makes it fail. -/
def ingestReply (setup : Setup) (accepted receivedAt : Nat) (first : Event) (batch : List Event) :
    Option Ack :=
  match ingestLowerLogs accepted batch with
  | .ack through => some ⟨first.bootId, through⟩
  | .refused => none
  | .append values =>
    if values.any fun e => maxJSONLineBytes < lineBytes setup receivedAt e then none
    else some ⟨first.bootId, (values.getLast?.map (·.sequence)).getD 0⟩

/-- The answer of a healthy manager whose cursor for the boot of the batch stands at `accepted`. -/
def healthyReply (setup : Setup) (accepted receivedAt : Nat) (batch : List Event) : Option Ack :=
  if maxLowerLogCompressedBody < bodyBytes setup batch ∨ !validateLowerLogBatch setup batch then
    none
  else batch.head?.bind fun first => ingestReply setup accepted receivedAt first batch

/-! ## The batch that is sent -/

/-- A batch is the front of the queue within one boot, and not empty. -/
theorem nextBatch_eq {queue : List Event} {size : Nat} (hne : queue ≠ []) (hsize : 1 ≤ size) :
    ∃ first rest, nextBatch queue size = first :: rest ∧ queue.head? = some first ∧
      first :: rest <+: queue ∧ (first :: rest).length ≤ size ∧
      ∀ e ∈ first :: rest, e.bootId = first.bootId := by
  obtain ⟨first, tail, rfl⟩ := List.exists_cons_of_ne_nil hne
  obtain ⟨n, rfl⟩ : ∃ n, size = n + 1 := ⟨size - 1, by omega⟩
  have hbatch : nextBatch (first :: tail) (n + 1) =
      first :: (tail.takeWhile fun e => e.bootId = first.bootId).take n := by
    simp [nextBatch]
  refine ⟨first, _, hbatch, rfl, ?_, ?_, ?_⟩
  · rw [← hbatch]
    exact (List.take_prefix _ _).trans (List.takeWhile_prefix _)
  · rw [← hbatch]
    exact List.length_take_le _ _
  · intro e he
    rw [← hbatch] at he
    have := List.mem_takeWhile_imp (List.mem_of_mem_take he)
    exact of_decide_eq_true this

/-! ## The answer that comes back -/

theorem settle_append {job : Job} (hjob : w.job = some job) (hstage : job.appended = false) :
    settle setup w = some (appendValues setup w job) := by
  simp [settle, hjob, step, hstage]

theorem settle_commit {job : Job} (hjob : w.job = some job) (hstage : job.appended = true) :
    settle setup w = some ((w.saveCursor job).answer job.id
      (some ⟨job.bootId, (job.values.getLast?.map (·.sequence)).getD 0⟩)) := by
  simp [settle, hjob, step, hstage]

/-- The request goes through the manager to its answer, and nothing changes the sender. -/
theorem served_eq (hs : w.sender = some s) (hawaiting : s.awaiting = some (id, first :: events))
    (hrequest : w.requests.lookup id = some (first :: events)) (hidle : w.job = none) :
    ∃ v : World, served setup w id receivedAt save = some (v.attemptEnded s (first :: events)
      (healthyReply setup (w.cursor first.bootId) receivedAt (first :: events)) save) := by
  have hreceive : ∀ (v : World) (reply : Option Ack), v.sender = some s →
      step setup (v.answer id reply) (.receive save) =
        some ((v.answer id reply).attemptEnded s (first :: events) reply save) := by
    intro v reply hv
    simp [step, World.answer, hv, hawaiting]
  have hsettled : ∀ (v : World) (reply : Option Ack),
      settle setup (v.answer id reply) = some (v.answer id reply) := fun _ _ => rfl
  have htake : step setup w (.take id receivedAt) =
      some (takeRequest setup w id receivedAt (first :: events)) := by
    simp [step, hidle, hrequest]
  unfold served
  rw [htake, Option.bind_some]
  unfold takeRequest healthyReply ingestReply
  dsimp only [List.head?_cons, Option.bind_some]
  split
  · rw [hsettled, Option.bind_some, hsettled, Option.bind_some]
    exact ⟨_, hreceive _ _ hs⟩
  cases hingest : ingestLowerLogs (w.cursor first.bootId) (first :: events) with
  | ack through =>
    dsimp only
    rw [hsettled, Option.bind_some, hsettled, Option.bind_some]
    exact ⟨_, hreceive _ _ hs⟩
  | refused =>
    dsimp only
    rw [hsettled, Option.bind_some, hsettled, Option.bind_some]
    exact ⟨_, hreceive _ _ hs⟩
  | append values =>
    dsimp only
    rw [settle_append rfl rfl, Option.bind_some]
    unfold appendValues
    split
    · rw [hsettled, Option.bind_some]
      exact ⟨_, hreceive _ _ hs⟩
    · rw [settle_commit rfl rfl, Option.bind_some]
      exact ⟨_, hreceive _ _ hs⟩

/-- The queue loses its front exactly when `post_batch` succeeds. -/
theorem attemptEnded_queue (v : World) (s : Sender) (reply : Option Ack) (save : SpoolSave)
    (hhead : s.queue.head? = some first) :
    ∃ t, (v.attemptEnded s (first :: events) reply save).sender = some t ∧
      ((∃ k, t.queue = s.queue.drop (k + 1)) ↔
        (postBatch (first :: events) reply).isSome = true) := by
  unfold World.attemptEnded
  cases hpost : postBatch (first :: events) reply with
  | none =>
    refine ⟨{ s with spoolDirty := false, awaiting := none }, rfl, ?_⟩
    obtain ⟨tail, hqueue⟩ := List.head?_eq_some_iff.mp hhead
    simp only [Option.isSome_none, Bool.false_eq_true, iff_false, not_exists]
    intro k hk
    have hlen := congrArg List.length hk
    simp only [hqueue, List.length_cons, List.length_drop] at hlen
    omega
  | some through =>
    obtain ⟨_, _, _, hcons, -, -, -, hfirst⟩ := postBatch_eq_some hpost
    obtain ⟨rfl, -⟩ := List.cons.inj hcons
    obtain ⟨tail, hqueue⟩ := List.head?_eq_some_iff.mp hhead
    refine ⟨_, rfl, ?_⟩
    simp only [Option.isSome_some, iff_true]
    refine ⟨tail.findIdx fun e => !Sender.covered first.bootId through e, ?_⟩
    have hcovered : Sender.covered first.bootId through first = true := by
      simpa [Sender.covered] using hfirst
    rw [hqueue, List.dropWhile_cons_of_pos hcovered, List.drop_succ_cons]
    exact List.dropWhile_eq_drop_findIdx_not

theorem postBatch_isSome {through : Nat} :
    (postBatch (first :: events) (some ⟨first.bootId, through⟩)).isSome = true ↔
      first.sequence ≤ through ∧
        through ≤ ((first :: events).getLast (List.cons_ne_nil _ _)).sequence := by
  simp only [postBatch, ne_eq, not_true_eq_false, if_false]
  split
  · simp only [Option.isSome_none, Bool.false_eq_true, false_iff]
    omega
  split
  · simp only [Option.isSome_none, Bool.false_eq_true, false_iff]
    omega
  · simp only [Option.isSome_some, true_iff]
    omega

/-- What the manager makes of a batch without a gap depends on where its cursor stands. -/
theorem ingestLowerLogs_eq {c : Nat} (hcons : Consecutive first.sequence (first :: events)) :
    ingestLowerLogs c (first :: events) =
      if ((first :: events).getLast (List.cons_ne_nil _ _)).sequence ≤ c then .ack c
      else if c + 1 < first.sequence then .refused
      else .append ((first :: events).dropWhile fun e => e.sequence ≤ c) := by
  have hlast := List.getLast_mem (List.cons_ne_nil first events)
  unfold ingestLowerLogs
  rw [List.getLast?_eq_some_getLast (List.cons_ne_nil _ _)]
  dsimp only
  split
  · rfl
  next hpassed =>
  have hmem := (hcons.mem_dropWhile_le (c := c)).mpr ⟨hlast, Nat.lt_of_not_le hpassed⟩
  split
  · next hdrop =>
    rw [hdrop] at hmem
    cases hmem
  · next e rest hdrop =>
    by_cases hgap : c + 1 < first.sequence
    · have hkept : (first :: events).dropWhile (fun e => e.sequence ≤ c) = first :: events :=
        List.dropWhile_cons_of_neg (by simp; omega)
      obtain ⟨rfl, -⟩ := List.cons.inj (hkept.symm.trans hdrop)
      rw [if_pos (by omega), if_pos hgap]
    · have hnext := hcons.dropWhile_le (c := c) (by omega)
      rw [hdrop] at hnext
      rw [if_neg (not_not.mpr hnext.1), if_neg hgap, hdrop]

/-- The new events of a batch end where the batch ends. -/
theorem getLast?_dropWhile_le {c : Nat} (hcons : Consecutive first.sequence (first :: events))
    (hc : c < ((first :: events).getLast (List.cons_ne_nil _ _)).sequence) :
    ((first :: events).dropWhile fun e => e.sequence ≤ c).getLast? =
      some ((first :: events).getLast (List.cons_ne_nil _ _)) := by
  have hmem := hcons.mem_dropWhile_le.mpr ⟨List.getLast_mem (List.cons_ne_nil first events), hc⟩
  obtain ⟨front, hfront⟩ := List.dropWhile_suffix
    (fun e : Event => decide (e.sequence ≤ c)) (l := first :: events)
  rw [← List.getLast?_eq_some_getLast]
  conv_rhs => rw [← hfront, List.getLast?_append]
  rw [List.getLast?_eq_some_getLast (List.ne_nil_of_mem hmem)]
  rfl

/-- An answer passes `post_batch` when the cursor was within the batch and the new lines fit. -/
theorem postBatch_ingestReply {c : Nat}
    (hcons : Consecutive first.sequence (first :: events)) :
    (postBatch (first :: events)
      (ingestReply setup c receivedAt first (first :: events))).isSome = true ↔
      (∀ e ∈ first :: events, c < e.sequence → lineBytes setup receivedAt e ≤ maxJSONLineBytes) ∧
      first.sequence ≤ c + 1 ∧
        c ≤ ((first :: events).getLast (List.cons_ne_nil _ _)).sequence := by
  have hlast := hcons.getLast (List.cons_ne_nil _ _)
  have hmem := List.getLast_mem (List.cons_ne_nil first events)
  rw [ingestReply, ingestLowerLogs_eq hcons]
  by_cases hold : ((first :: events).getLast (List.cons_ne_nil _ _)).sequence ≤ c
  · rw [if_pos hold]
    dsimp only
    rw [postBatch_isSome]
    constructor
    · rintro ⟨hfirst, hpassed⟩
      refine ⟨fun e he hlt => ?_, by omega, hpassed⟩
      have := hcons.lt_of_mem he
      omega
    · rintro ⟨-, hreached, hpassed⟩
      have := hcons.le_of_mem hmem
      omega
  rw [if_neg hold]
  by_cases hgap : c + 1 < first.sequence
  · rw [if_pos hgap]
    simp only [postBatch, Option.isSome_none, Bool.false_eq_true, false_iff]
    omega
  rw [if_neg hgap]
  dsimp only
  have hnew : ∀ e, e ∈ (first :: events).dropWhile (fun e => e.sequence ≤ c) ↔
      e ∈ first :: events ∧ c < e.sequence := fun e => hcons.mem_dropWhile_le
  have hlines : ((first :: events).dropWhile fun e => e.sequence ≤ c).any
        (fun e => maxJSONLineBytes < lineBytes setup receivedAt e) = true ↔
      ¬ ∀ e ∈ first :: events, c < e.sequence →
        lineBytes setup receivedAt e ≤ maxJSONLineBytes := by
    simp only [List.any_eq_true, decide_eq_true_eq, hnew, not_forall, not_le]
    exact ⟨fun ⟨e, ⟨he, hlt⟩, hlong⟩ => ⟨e, he, hlt, hlong⟩,
      fun ⟨e, he, hlt, hlong⟩ => ⟨e, ⟨he, hlt⟩, hlong⟩⟩
  split
  · next hlong =>
    simp only [postBatch, Option.isSome_none, Bool.false_eq_true, false_iff]
    exact fun h => hlines.mp hlong h.1
  · next hshort =>
    rw [getLast?_dropWhile_le hcons (by omega), Option.map_some, Option.getD_some, postBatch_isSome]
    have hfit := not_not.mp (mt hlines.mpr hshort)
    have := hcons.le_of_mem hmem
    exact ⟨fun _ => ⟨hfit, by omega, by omega⟩, fun _ => ⟨by omega, Nat.le_refl _⟩⟩

theorem deliverable_iff (hboot : ∀ e ∈ first :: events, e.bootId = first.bootId) :
    Deliverable setup w (first :: events) receivedAt ↔
      bodyBytes setup (first :: events) ≤ maxLowerLogCompressedBody ∧
      (∀ e ∈ first :: events, withinLimits e = true) ∧
      (∀ e ∈ first :: events, w.cursor first.bootId < e.sequence →
        lineBytes setup receivedAt e ≤ maxJSONLineBytes) ∧
      first.sequence ≤ w.cursor first.bootId + 1 ∧ w.cursor first.bootId ≤
        ((first :: events).getLast (List.cons_ne_nil _ _)).sequence := by
  have hlast := hboot _ (List.getLast_mem (List.cons_ne_nil first events))
  constructor
  · intro h
    refine ⟨h.body, h.limits, fun e he => hboot e he ▸ h.lines e he, h.reached first rfl, ?_⟩
    rw [← hlast]
    exact h.notPassed _ (List.getLast?_eq_some_getLast _)
  · rintro ⟨hbody, hlimits, hlines, hreached, hpassed⟩
    refine ⟨hbody, hlimits, fun e he => hboot e he ▸ hlines e he, ?_, ?_⟩
    · intro e he
      obtain rfl : first = e := Option.some.inj he
      exact hreached
    · intro e he
      rw [List.getLast?_eq_some_getLast (List.cons_ne_nil _ _)] at he
      obtain rfl := Option.some.inj he
      rw [hlast]
      exact hpassed

/-- On a batch without a gap the answer of a healthy manager passes `post_batch` exactly under the
limits and with the cursor within the batch. -/
theorem postBatch_healthyReply (hcons : Consecutive first.sequence (first :: events))
    (hpos : first.sequence ≠ 0)
    (hlen : (first :: events).length ≤ 500)
    (hboot : ∀ e ∈ first :: events, e.bootId = first.bootId) :
    (postBatch (first :: events) (healthyReply setup (w.cursor first.bootId) receivedAt
      (first :: events))).isSome = true ↔ Deliverable setup w (first :: events) receivedAt := by
  have hvalid : validateLowerLogBatch setup (first :: events) = true ↔
      ∀ e ∈ first :: events, withinLimits e = true := by
    rw [validateLowerLogBatch_iff]
    exact ⟨fun h e he => (h.2.2.2 e he).2,
      fun h => ⟨hpos, hlen, hcons, fun e he => ⟨hboot e he, h e he⟩⟩⟩
  rw [deliverable_iff hboot, healthyReply]
  split
  · next hrefused =>
    simp only [postBatch, Option.isSome_none, Bool.false_eq_true, false_iff]
    rintro ⟨hbody, hlimits, -⟩
    rcases hrefused with hlarge | hinvalid
    · omega
    · rw [hvalid.mpr hlimits] at hinvalid
      cases hinvalid
  · next hchecked =>
    obtain ⟨hbody, hchecked⟩ := not_or.mp hchecked
    have hlimits := hvalid.mp (by simpa using hchecked)
    rw [List.head?_cons, Option.bind_some, postBatch_ingestReply hcons]
    exact ⟨fun h => ⟨Nat.le_of_not_lt hbody, hlimits, h⟩, fun h => h.2.2⟩

/-! ## Reached states -/

/-- The request takes the front of the queue with it exactly when the batch is deliverable. -/
theorem served_drains_iff (h : Inv stream w) (hs : w.sender = some s)
    (hawaiting : s.awaiting = some (id, batch)) (hrequest : (id, batch) ∈ w.requests)
    (hidle : w.job = none) (receivedAt : Nat) (save : SpoolSave) :
    (∃ w' t, served setup w id receivedAt save = some w' ∧ w'.sender = some t ∧
      ∃ k, t.queue = s.queue.drop (k + 1)) ↔ Deliverable setup w batch receivedAt := by
  have hready := h.sender s hs
  obtain ⟨-, hbatch, hne, hsame⟩ := hready.awaiting _ hawaiting
  dsimp only at hbatch hsame
  obtain ⟨first, rest, hnext, hhead, hfront, hlen, hboot⟩ :=
    nextBatch_eq hne hready.batchSize.1
  rw [hnext] at hbatch
  subst hbatch
  have hlookup : w.requests.lookup id = some (first :: rest) := by
    cases hfound : w.requests.lookup id with
    | none =>
      have hother := List.lookup_eq_none_iff.mp hfound _ hrequest
      simp at hother
    | some found => exact congrArg some (hsame _ (mem_of_lookup hfound) rfl)
  have hbacklog := hready.retained.backlog.of_front hfront
  obtain ⟨i, hseq, -⟩ := hbacklog.known first List.mem_cons_self
  have hcons : Consecutive first.sequence (first :: rest) :=
    consecutive_of_linked hbacklog.linked hboot (by simp)
  obtain ⟨v, hserved⟩ := @served_eq setup w s rest first id receivedAt save hs hawaiting hlookup
    hidle
  have hsize := hready.batchSize.2
  rw [← postBatch_healthyReply hcons (by omega) (by omega) hboot, hserved]
  obtain ⟨t, ht, hdrained⟩ := attemptEnded_queue v s
    (healthyReply setup (w.cursor first.bootId) receivedAt (first :: rest)) save hhead
  rw [← hdrained]
  constructor
  · rintro ⟨w', t', hw', ht', hqueue⟩
    obtain rfl := Option.some.inj hw'
    obtain rfl := Option.some.inj (ht.symm.trans ht')
    exact hqueue
  · exact fun hqueue => ⟨_, t, rfl, ht, hqueue⟩

namespace Sample

/-- A source with two boots. -/
def lower : Setup where
  sourceId := "lower-1"
  bootText b := if b = 0 then "18c2f1a0-1a4" else "18c2f1b7-1b0"
  jsonContext _ := none
  spoolMaxBytes := 1048576
  sourceId_resolved := ⟨by decide, by decide +kernel, by decide +kernel⟩
  bootText_valid b := by split <;> decide +kernel

def firstEvent : Event := ⟨0, 1, 1700000000000, .info, "rcd", none, none, "first"⟩
def secondEvent : Event := ⟨0, 2, 1700000000001, .warn, "rcd", none, none, "second"⟩

/-- Two records are sent in one batch. -/
def oneBatch : List Step :=
  [.start 2 0, .push 1700000000000 .info "rcd" "first", .push 1700000000001 .warn "rcd" "second",
    .flush .saved, .send]

/-- The batch is committed, but its reply is lost with the sender, which comes back with batches of
one. -/
def smallerBatches : List Step :=
  oneBatch ++ [.take 0 1700000000002000000, .append, .commit, .crash none, .start 1 2, .send]

def sent : Sender := ⟨[firstEvent, secondEvent], 0, 2, false, 2, some (0, [firstEvent, secondEvent])⟩
def resent : Sender := ⟨[firstEvent, secondEvent], 1, 0, false, 1, some (1, [firstEvent])⟩

end Sample

/-- The manager has both events and acknowledges both, the sender has asked for the first one only,
and so it goes on forever. -/
theorem lower_logs_wedged : ∃ w,
    exec (step Sample.lower) World.initial Sample.smallerBatches = some w ∧
    w.sender = some Sample.resent ∧ (1, [Sample.firstEvent]) ∈ w.requests ∧ w.job = none ∧
    w.rolledBack = false ∧ ∀ receivedAt save,
      ¬ ∃ w' t, served Sample.lower w 1 receivedAt save = some w' ∧ w'.sender = some t ∧
        ∃ k, t.queue = Sample.resent.queue.drop (k + 1) := by
  have hrun : (exec (step Sample.lower) World.initial Sample.smallerBatches).any (fun w =>
      w.sender = some Sample.resent && (1, [Sample.firstEvent]) ∈ w.requests && w.job.isNone &&
        !w.rolledBack && w.cursor 0 = 2) = true := by decide +kernel
  obtain ⟨w, hw, hstate⟩ := (Option.any_eq_true _ _).mp hrun
  simp only [Bool.and_eq_true, decide_eq_true_eq, Option.isNone_iff_eq_none, Bool.not_eq_true']
    at hstate
  obtain ⟨⟨⟨⟨hsender, hrequest⟩, hjob⟩, hrolled⟩, hcursor⟩ := hstate
  refine ⟨w, hw, hsender, hrequest, hjob, hrolled, fun receivedAt save hdrained => ?_⟩
  obtain ⟨stream, hinv⟩ := inv_run hw
  have hdeliverable := (served_drains_iff hinv hsender rfl hrequest hjob receivedAt save).mp hdrained
  have hpassed := hdeliverable.notPassed Sample.firstEvent rfl
  rw [show Sample.firstEvent.bootId = 0 from rfl, hcursor] at hpassed
  exact absurd hpassed (by decide)

/-- In every run: what an acknowledgement has removed is in the file, the cursor of a boot stands
for its sequences from one on, and a request that gets through drains the queue exactly when its
batch is deliverable. Unless committed cursors were lost, no batch starts behind a gap. -/
theorem lower_logs_delivered {run : List Step}
    (h : exec (step setup) World.initial run = some w) :
    (∀ e ∈ w.removed, e ∈ w.appended) ∧
    (∀ b, (w.accepted b).map (·.sequence) = List.range' 1 (w.cursor b) ∧
      ∀ e ∈ w.accepted b, e.bootId = b ∧ e ∈ w.appended) ∧
    ∀ s, w.sender = some s → s.queue ≠ [] →
      (s.awaiting = none → ∃ w', step setup w .send = some w') ∧
      ∀ id batch, s.awaiting = some (id, batch) →
        (w.rolledBack = false → ∀ e ∈ batch.head?, e.sequence ≤ w.cursor e.bootId + 1) ∧
        ((id, batch) ∈ w.requests → w.job = none → ∀ receivedAt save,
          ((∃ w' t, served setup w id receivedAt save = some w' ∧ w'.sender = some t ∧
            ∃ k, t.queue = s.queue.drop (k + 1)) ↔ Deliverable setup w batch receivedAt)) := by
  obtain ⟨stream, hinv⟩ := inv_run h
  refine ⟨hinv.ingested.removed, fun b => ⟨?_, ?_⟩, fun s hs hne => ⟨?_, ?_⟩⟩
  · rw [hinv.ingested.accepted]
    exact sequences_take hinv.numbered (hinv.ingested.covered b).1
  · intro e he
    rw [hinv.ingested.accepted] at he
    obtain ⟨i, hi⟩ := List.mem_iff_getElem?.mp (List.mem_of_mem_take he)
    exact ⟨(hinv.numbered b i e hi).1, (hinv.ingested.covered b).2 e he⟩
  · intro hidle
    simp only [step, hs, Option.bind_some, if_pos (And.intro hidle hne)]
    exact ⟨_, rfl⟩
  · intro id batch hawaiting
    have hready := hinv.sender s hs
    refine ⟨fun hrolled => ?_, served_drains_iff hinv hs hawaiting⟩
    obtain ⟨-, hbatch, -, -⟩ := hready.awaiting _ hawaiting
    obtain ⟨first, rest, hnext, -, hfront, -, -⟩ := nextBatch_eq hne hready.batchSize.1
    dsimp only at hbatch
    rw [hbatch, hnext]
    exact (hready.retained.reaches hrolled).of_front hfront

theorem lower_logs_delivered_one_batch : ∃ w w' t,
    exec (step Sample.lower) World.initial Sample.oneBatch = some w ∧
    served Sample.lower w 0 1700000000002000000 .saved = some w' ∧ w'.sender = some t ∧
    ∃ k, t.queue = Sample.sent.queue.drop (k + 1) := by
  have hrun : (exec (step Sample.lower) World.initial Sample.oneBatch).any (fun w =>
      w.sender = some Sample.sent &&
        (0, [Sample.firstEvent, Sample.secondEvent]) ∈ w.requests && w.job.isNone &&
        w.cursor 0 = 0) = true := by decide +kernel
  obtain ⟨w, hw, hstate⟩ := (Option.any_eq_true _ _).mp hrun
  simp only [Bool.and_eq_true, decide_eq_true_eq, Option.isNone_iff_eq_none] at hstate
  obtain ⟨⟨⟨hsender, hrequest⟩, hjob⟩, hcursor⟩ := hstate
  have hdeliverable : Deliverable Sample.lower w [Sample.firstEvent, Sample.secondEvent]
      1700000000002000000 := by
    have hboot : ∀ e ∈ [Sample.firstEvent, Sample.secondEvent],
        e.bootId = Sample.firstEvent.bootId := by decide
    refine (deliverable_iff hboot).mpr ⟨by decide +kernel, by decide +kernel, ?_, ?_, ?_⟩
    all_goals rw [show Sample.firstEvent.bootId = 0 from rfl, hcursor]
    all_goals decide +kernel
  have hserved := ((lower_logs_delivered hw).2.2 Sample.sent hsender (by decide)).2 _ _ rfl
  obtain ⟨w', t, h⟩ := (hserved.2 hrequest hjob _ .saved).mpr hdeliverable
  exact ⟨w, w', t, hw, h⟩

end RcdServer.LowerLogs
