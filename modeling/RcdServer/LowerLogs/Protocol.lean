import RcdServer.Lib.Run
import RcdServer.LowerLogs.Events

/-!
# Delivery of lower logs

One worker of `log_push.rs` and the manager's ingestion. The worker is one thread, so nothing
changes its queue while it waits for a reply. Requests on their way may be taken up at any later
time, each at most once; replies reach only the attempt they answer. Either side may stop at any
point and keeps what its disk holds.
-/
namespace RcdServer.LowerLogs

open Lib

/-- `awaiting` is the attempt under way with the batch it has sent. -/
structure Sender where
  queue : List Event
  bootId : Nat
  nextSequence : Nat
  spoolDirty : Bool
  batchSize : Nat
  awaiting : Option (Nat × List Event)
  deriving DecidableEq

/-- A request under the lock of its source: the events to append and their time of receipt. -/
structure Job where
  id : Nat
  bootId : Nat
  values : List Event
  receivedAt : Nat
  appended : Bool

/-- `versions` are the contents that the spool file has had. `appended` are the lines that an
`Append` without error has written, `accepted` the events the cursor of each boot stands for,
`removed` the events that an acknowledgement has taken from the queue, and `rolledBack` says that
the cursors have come back older than they were committed. -/
structure World where
  sender : Option Sender
  spool : List Event
  versions : List (List Event)
  boots : Nat
  attempts : Nat
  requests : List (Nat × List Event)
  job : Option Job
  replies : List (Nat × Option Ack)
  cursor : Nat → Nat
  appended : List Event
  accepted : Nat → List Event
  removed : List Event
  rolledBack : Bool

def World.initial : World :=
  ⟨none, [], [[]], 0, 0, [], none, [], fun _ => 0, [], fun _ => [], [], false⟩

/-- How `save_spool` ends. It replaces the file as a whole; where the old file is removed before
the renaming, a failure may leave none. -/
inductive SpoolSave where
  | saved
  | kept
  | gone
  deriving DecidableEq

def SpoolSave.failed : SpoolSave → Bool
  | .saved => false
  | .kept | .gone => true

def World.saveSpool (w : World) (queue : List Event) : SpoolSave → World
  | .saved => { w with spool := queue, versions := queue :: w.versions }
  | .kept => w
  | .gone => { w with spool := [] }

namespace Sender

def storedEvent (setup : Setup) (s : Sender) (record : PendingRecord) : Event :=
  let context := extractLogContext setup record.message
  ⟨s.bootId, s.nextSequence + 1, record.timestamp, record.level, record.component, context.1,
    context.2, record.message⟩

def push (setup : Setup) (s : Sender) (record : PendingRecord) : Sender :=
  { s with
    queue := s.queue ++ [s.storedEvent setup record]
    nextSequence := s.nextSequence + 1
    spoolDirty := true }

/-- `enforce_spool_limit` above the limit; the replacement is the next boot identifier. -/
def rebased (setup : Setup) (s : Sender) (boot : Nat) : Sender :=
  { s with
    queue := rebase boot (dropUntil setup s.queue.length s.queue)
    bootId := boot
    nextSequence := (dropUntil setup s.queue.length s.queue).length }

/-- The events at the front that an accepted sequence covers. -/
def covered (boot through : Nat) (e : Event) : Bool :=
  e.bootId == boot && e.sequence ≤ through

end Sender

/-- The attempt has ended with an error: the spool is saved if need be, and is not dirty from then
on even if that fails. -/
def World.attemptFailed (w : World) (s : Sender) (save : SpoolSave) : World :=
  let w := if s.spoolDirty then w.saveSpool s.queue save else w
  { w with sender := some { s with spoolDirty := false, awaiting := none } }

/-- `post_batch` has returned: with an accepted sequence the covered events leave the queue. -/
def World.attemptEnded (w : World) (s : Sender) (batch : List Event) (reply : Option Ack)
    (save : SpoolSave) : World :=
  match postBatch batch reply, batch.head? with
  | some through, some first =>
    let queue := s.queue.dropWhile (Sender.covered first.bootId through)
    { w.saveSpool queue save with
      sender := some { s with queue := queue, spoolDirty := save.failed, awaiting := none }
      removed := w.removed ++ s.queue.takeWhile (Sender.covered first.bootId through) }
  | _, _ => w.attemptFailed s save

/-- The request leaves the lock with this reply. -/
def World.answer (w : World) (id : Nat) (reply : Option Ack) : World :=
  { w with job := none, replies := (id, reply) :: w.replies }

/-- `SaveLowerLogCursor`; the cursor never goes back. -/
def World.saveCursor (w : World) (job : Job) : World :=
  { w with
    cursor := Function.update w.cursor job.bootId
      (max (w.cursor job.bootId) ((job.values.getLast?.map (·.sequence)).getD 0))
    accepted := Function.update w.accepted job.bootId (w.accepted job.bootId ++ job.values) }

inductive Step where
  /-- A record of the channels gets its sequence. -/
  | push (timestamp : Nat) (level : Level) (target message : String)
  | flush (save : SpoolSave)
  | send
  /-- The reply of the attempt under way arrives. -/
  | receive (save : SpoolSave)
  /-- The attempt under way ends without a reply. -/
  | fail (save : SpoolSave)
  /-- An orderly end of the worker. -/
  | stop (save : SpoolSave)
  /-- The worker dies; a power loss may bring back an older spool file. -/
  | crash (version : Option Nat)
  /-- A new worker reads the lines of the spool file up to the first error. -/
  | start (batchSize lines : Nat)
  /-- A request is lost before the manager has read the cursor. -/
  | lose (id : Nat)
  | take (id receivedAt : Nat)
  | append
  | appendFailed
  | commit
  /-- `SaveLowerLogCursor` reports an error and may have stored the cursor all the same. -/
  | commitFailed (stored : Bool)
  | managerCrash
  /-- The cursors are committed without waiting for the disk, so a power loss may take back the
  last commits. -/
  | managerPowerLoss (kept : Nat → Nat)

/-- A request under way gets the lock. -/
def takeRequest (setup : Setup) (w : World) (id receivedAt : Nat) (batch : List Event) : World :=
  let w := { w with requests := w.requests.filter (·.1 != id) }
  if maxLowerLogCompressedBody < bodyBytes setup batch ∨ !validateLowerLogBatch setup batch then
    w.answer id none
  else
    match batch.head? with
    | none => w.answer id none
    | some first =>
      match ingestLowerLogs (w.cursor first.bootId) batch with
      | .ack through => w.answer id (some ⟨first.bootId, through⟩)
      | .refused => w.answer id none
      | .append values => { w with job := some ⟨id, first.bootId, values, receivedAt, false⟩ }

def appendValues (setup : Setup) (w : World) (job : Job) : World :=
  if job.values.any fun e => maxJSONLineBytes < lineBytes setup job.receivedAt e then
    w.answer job.id none
  else
    { w with appended := w.appended ++ job.values, job := some { job with appended := true } }

def flush (setup : Setup) (w : World) (s : Sender) (save : SpoolSave) : World :=
  if estimatedSpoolBytes setup s.queue ≤ setup.spoolMaxBytes then
    { w.saveSpool s.queue save with sender := some { s with spoolDirty := save.failed } }
  else
    let t := s.rebased setup w.boots
    { w.saveSpool t.queue save with
      sender := some { t with spoolDirty := save.failed }
      boots := w.boots + 1 }

def startWorker (w : World) (batchSize lines : Nat) : World :=
  { w with
    sender := some ⟨w.spool.take lines, w.boots, 0, false, max 1 (min batchSize 500), none⟩
    boots := w.boots + 1 }

def step (setup : Setup) (w : World) : Step → Option World
  | .push timestamp level target message =>
    w.sender.bind fun s =>
      if s.awaiting = none then
        some { w with
          sender := some (s.push setup (pendingRecord timestamp level target message)) }
      else none
  | .flush save =>
    w.sender.bind fun s =>
      if s.awaiting = none ∧ s.spoolDirty then some (flush setup w s save) else none
  | .send =>
    w.sender.bind fun s =>
      if s.awaiting = none ∧ s.queue ≠ [] then
        some { w with
          sender := some { s with awaiting := some (w.attempts, nextBatch s.queue s.batchSize) }
          attempts := w.attempts + 1
          requests := (w.attempts, nextBatch s.queue s.batchSize) :: w.requests }
      else none
  | .receive save =>
    w.sender.bind fun s =>
      s.awaiting.bind fun attempt =>
        (w.replies.lookup attempt.1).map fun reply => w.attemptEnded s attempt.2 reply save
  | .fail save =>
    w.sender.bind fun s => s.awaiting.map fun _ => w.attemptFailed s save
  | .stop save =>
    w.sender.bind fun s =>
      if s.awaiting = none then
        some { (if s.spoolDirty then w.saveSpool s.queue save else w) with sender := none }
      else none
  | .crash version =>
    w.sender.map fun _ =>
      { w with sender := none, spool := (version.bind (w.versions[·]?)).getD w.spool }
  | .start batchSize lines =>
    if w.sender.isNone then some (startWorker w batchSize lines) else none
  | .lose id => some { w with requests := w.requests.filter (·.1 != id) }
  | .take id receivedAt =>
    if w.job.isNone then (w.requests.lookup id).map (takeRequest setup w id receivedAt) else none
  | .append =>
    w.job.bind fun job => if job.appended then none else some (appendValues setup w job)
  | .appendFailed =>
    w.job.bind fun job => if job.appended then none else some (w.answer job.id none)
  | .commit =>
    w.job.bind fun job =>
      if job.appended then
        some ((w.saveCursor job).answer job.id
          (some ⟨job.bootId, (job.values.getLast?.map (·.sequence)).getD 0⟩))
      else none
  | .commitFailed stored =>
    w.job.bind fun job =>
      if job.appended then
        some ((if stored then w.saveCursor job else w).answer job.id none)
      else none
  | .managerCrash => some { w with job := none }
  | .managerPowerLoss kept =>
    some { w with
      job := none
      cursor := fun b => min (w.cursor b) (kept b)
      accepted := fun b => (w.accepted b).take (kept b)
      rolledBack := true }

/-- A healthy manager works on until the lock is free: what it has taken up is appended and
committed. -/
def settle (setup : Setup) (w : World) : Option World :=
  match w.job with
  | none => some w
  | some job => step setup w (if job.appended then .commit else .append)

/-- The request reaches a healthy manager and its reply arrives. -/
def served (setup : Setup) (w : World) (id receivedAt : Nat) (save : SpoolSave) : Option World :=
  (((step setup w (.take id receivedAt)).bind (settle setup)).bind (settle setup)).bind
    fun w => step setup w (.receive save)

end RcdServer.LowerLogs
