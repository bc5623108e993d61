import Mathlib.Logic.Function.Basic
import RcdServer.Lib.Run
import RcdServer.Lib.Text
import RcdServer.Operations.Control
import RcdServer.Protocol.Frame
import RcdServer.Serial.CommandTransaction

/-!
# The send node of one port

A client writes the send node, a manager submits a tracked command, or a client calls the legacy
method. Each of them runs in a thread of its own: it checks the value, takes the pending lock,
reserves the port, hands the command to the serial worker and announces that it waits. The ACK task
of the OPC server drains what the worker and the writers report and sweeps deadlines.

A step is what one of these threads does between two points where another can come in. Commands
are told apart by their acknowledgement numbers.
-/
namespace RcdServer.Opc

open Lib.Text (trim isAsciiWhiteSpace)
open Operations (OperationError Port shuttingDown)
open Protocol (getSum)
open Serial (CommandAckStatus Outcome Place Submission)
open Tracking (Snapshot hexDigit trimAttempts)

/-! ## Written values -/

inductive Variant where
  | string (text : String)
  | other
  deriving DecidableEq

inductive StatusCode where
  | good
  | badTypeMismatch
  | badInvalidArgument
  | badWaitingForResponse
  | badTimeout
  | badOutOfService
  | badResourceUnavailable
  deriving DecidableEq

structure SendData where
  deviceId : Nat
  command : List UInt8
  deriving DecidableEq

/-- `u8::from_str_radix(_, 16)` on pairs of characters; it takes a leading `+`. -/
def hexPairs : List Char → Option (List UInt8)
  | a :: b :: rest => do
    let high ← if a = '+' then some 0 else hexDigit a
    let low ← hexDigit b
    let bytes ← hexPairs rest
    return UInt8.ofNat (16 * high + low) :: bytes
  | _ => some []

def hexStrToBytes (hexStr : List Char) : Except String (List UInt8) :=
  if !hexStr.all (fun c => c.toNat < 128) then .error "Hex 字符串只能包含 ASCII 字符"
  else if hexStr.length % 2 ≠ 0 then .error "Hex 字符串长度不是偶数"
  else
    match hexPairs hexStr with
    | some bytes => .ok bytes
    | none => .error "invalid digit found in string"

def buildHexCommand (hexStr : String) : Except String SendData :=
  match hexStrToBytes (hexStr.toList.filter fun c => !isAsciiWhiteSpace c) with
  | .error e => .error ("十六进制解析失败: " ++ e)
  | .ok (first :: second :: rest) =>
    let bytes := first :: second :: rest
    .ok ⟨first.toNat, bytes ++ [getSum bytes]⟩
  | .ok _ => .error "十六进制长度过短（至少需 2 字节）"

def isSendNodeIdleOrStatus (value : String) : Bool :=
  value ∈ ["", "IDLE", "0", "1", "2", "3"]

/-- The value as `handle_send_node_write_tracked_deadline` reads it before it takes a lock: a
command, nothing to do, or a refusal. -/
def readValue : Option Variant → Except StatusCode (Option SendData)
  | none | some .other => .error .badTypeMismatch
  | some (.string text) =>
    let hexStr := trim text
    if isSendNodeIdleOrStatus hexStr then .ok none
    else
      match buildHexCommand hexStr with
      | .ok data => .ok (some data)
      | .error _ => .error .badInvalidArgument

/-! ## Commands -/

inductive Origin where
  | node
  | tracked
  | method
  deriving DecidableEq

/-- What the client gets: a status code, or the text of the method. -/
inductive Answer where
  | status (code : StatusCode)
  | text (message : String)
  deriving DecidableEq

/-- Where the thread of the writer stands. It has the pending lock from `locked` to `admitted`. -/
inductive Stage where
  | entered
  | locked
  | timed (deadline : Nat)
  | admitting (deadline : Nat)
  | admitted (deadline : Nat)
  | refused (answer : Answer)
  | reserved
  | begun
  | ready
  | sent
  | unsent
  | withdrawn
  | failed
  | returned (answer : Answer)
  | settled
  deriving DecidableEq

/-- `permit` is the reservation of the port that travels with the command, `recorded` whether the
tracker has evidence for it. `place` is where the worker stands with the command once it is in the
channel, `outbox` the notification that the worker is about to send for it. -/
structure Cmd where
  origin : Origin
  data : SendData
  notAfter : Option Nat
  expiresAt : Option Nat
  stage : Stage
  permit : Bool
  recorded : Bool
  snapshot : Snapshot
  place : Option Place
  outbox : Option CommandAckStatus

def Cmd.new (origin : Origin) (data : SendData) (notAfter : Option Nat) (recorded : Bool)
    (evidence : Snapshot) : Cmd :=
  { origin := origin
    data := data
    notAfter := notAfter
    expiresAt := none
    stage := .entered
    permit := false
    recorded := recorded
    snapshot := { evidence with phase := .accepted }
    place := none
    outbox := none }

/-- `Tracker::update` on the evidence of this command. -/
def Cmd.update (c : Cmd) (change : Snapshot → Snapshot) : Cmd :=
  { c with snapshot := trimAttempts (change c.snapshot) }

def Cmd.isTerminal (c : Cmd) : Bool := c.recorded && c.snapshot.terminal

def Cmd.submission (c : Cmd) : Submission :=
  match c.expiresAt with
  | some deadline => .sendNode deadline
  | none => .method

structure PendingCommand where
  ackId : Nat
  deadline : Nat
  deriving DecidableEq

structure CommandAckUpdate where
  ackId : Option Nat
  status : CommandAckStatus
  deriving DecidableEq

def isTerminal : CommandAckStatus → Bool
  | .received | .failed => true
  | .waiting => false

/-- A status that was written to the send node, with the newest accepted write at that moment. -/
structure Shown where
  ackId : Nat
  status : CommandAckStatus
  newest : Option Nat
  deriving DecidableEq

structure Config where
  portId : String
  commandPendingTimeout : Nat
  commandRetryCount : Nat

/-- `connected` is whether the worker still has its end of the command channel. `candidate` is the
expired command that the sweep has collected, and whether its evidence is marked already.
`accepted` lists the writes of the send node in the order in which they were reserved, `node` what
the node has shown. -/
structure State where
  clock : Nat
  port : Port
  shutdown : Bool
  connected : Bool
  lock : Option Nat
  pending : Option PendingCommand
  commands : Nat → Option Cmd
  acks : List CommandAckUpdate
  localAcks : List CommandAckUpdate
  candidate : Option (Nat × Bool)
  accepted : List Nat
  node : List Shown

/-- `Operations::new` starts every port with no pending command. -/
def State.initial (clock : Nat) (port : Port) : State :=
  { clock := clock
    port := { port with pendingCommands := 0 }
    shutdown := false
    connected := true
    lock := none
    pending := none
    commands := fun _ => none
    acks := []
    localAcks := []
    candidate := none
    accepted := []
    node := [] }

def State.put (s : State) (id : Nat) (c : Cmd) : State :=
  { s with commands := Function.update s.commands id (some c) }

/-! ## The writers -/

inductive Request where
  /-- A write of the send node. -/
  | write (value : Option Variant)
  /-- `submit_command`, whose evidence is begun before the write is handled. -/
  | submit (hexData : String) (deadline : Nat) (evidence : Snapshot)
  /-- The legacy method with its first argument. -/
  | call (argument : Option Variant)

/-- A request that reaches the locks; the others are answered at once. -/
def Request.command : Request → Option Cmd
  | .write value =>
    match readValue value with
    | .ok (some data) => some (.new .node data none false Serial.sampleCommand)
    | _ => none
  | .submit hexData deadline evidence =>
    if isSendNodeIdleOrStatus hexData then none
    else
      match buildHexCommand hexData, readValue (some (.string hexData)) with
      | .ok _, .ok (some data) => some (.new .tracked data (some deadline) true evidence)
      | _, _ => none
  | .call (some (.string text)) =>
    let hexStr := trim text
    if hexStr = "" then none
    else
      match buildHexCommand hexStr with
      | .ok data => some (.new .method data none false Serial.sampleCommand)
      | .error _ => none
  | .call _ => none

/-- What a step of a writer learns from the maintenance gate, from the journal and, for the
evidence of a refused submission, from the OPC library. -/
structure Reply where
  maintenance : Option OperationError
  recorded : Bool
  evidence : Snapshot
  bits : Nat
  debug : String

/-- `Operations::admit_command`. -/
def State.admitCommand (s : State) (maintenance : Option OperationError) :
    Except OperationError Port :=
  match maintenance with
  | some e => .error e
  | none =>
    if s.shutdown then .error shuttingDown
    else if s.port.controlPending || decide (0 < s.port.pendingCommands) then
      .error ⟨"busy", "port control is still pending"⟩
    else if !s.port.enabled || !s.port.appliedEnabled then
      .error ⟨"operation_failed", "port is disabled or not yet applied"⟩
    else .ok { s.port with pendingCommands := s.port.pendingCommands + 1 }

/-- The previous command of the node is not known to be over. -/
def State.unfinished (s : State) : Bool :=
  s.pending.any fun previous => !(s.commands previous.ackId).any Cmd.isTerminal

/-- An early return: the pending lock is dropped before the command. -/
def State.refuse (s : State) (id : Nat) (c : Cmd) (code : StatusCode) : State :=
  { s with lock := none }.put id { c with stage := .refused (.status code) }

def workerGone : OperationError :=
  ⟨"operation_failed", "转发命令到串口失败: SendError \x7b .. \x7d"⟩

def forwarded (portId : String) (deviceId : Nat) : String :=
  "已发送到 " ++ portId ++ " 设备 " ++ toString deviceId

/-- The last closure of `submit_command`. -/
def settle (code : StatusCode) (bits : Nat) (debug : String) (v : Snapshot) : Snapshot :=
  let v := { v with statusCode := bits }
  match code with
  | .good => v
  | .badTimeout =>
    { v with accepted := false, phase := .expired, error := "deadline_expired_before_admission" }
  | _ => { v with accepted := false, phase := .failed, error := debug }

def unavailable (v : Snapshot) : Snapshot :=
  { v with accepted := false, phase := .failed, error := "command channel unavailable" }

/-- The next step of `handle_send_node_write_tracked_deadline`. -/
def State.writeNode (cfg : Config) (s : State) (id : Nat) (c : Cmd) (r : Reply) : Option State :=
  match c.stage with
  | .entered =>
    if s.lock.isSome then none
    else some ({ s with lock := some id }.put id { c with stage := .locked })
  | .locked =>
    if s.unfinished then some (s.refuse id c .badWaitingForResponse)
    else
      let deadline := c.notAfter.getD (s.clock + cfg.commandPendingTimeout)
      some (s.put id { c with stage := .timed deadline })
  | .timed deadline =>
    if deadline ≤ s.clock then some (s.refuse id c .badTimeout)
    else some (s.put id { c with stage := .admitting deadline, expiresAt := some deadline })
  | .admitting deadline =>
    match s.admitCommand r.maintenance with
    | .ok port => some ({ s with port := port }.put id { c with stage := .admitted deadline, permit := true })
    | .error e =>
      some (s.refuse id c (if e.code = "busy" then .badWaitingForResponse else .badOutOfService))
  | .admitted deadline =>
    if deadline ≤ s.clock then some (s.refuse id c .badTimeout)
    else
      some ({ s with
        lock := none
        pending := some ⟨id, deadline⟩
        accepted := s.accepted ++ [id] }.put id { c with stage := .reserved })
  | .refused answer => if c.permit then none else some (s.put id { c with stage := .returned answer })
  | .reserved =>
    if c.origin = .tracked then some (s.put id { c with stage := .begun })
    else
      some (s.put id { c with
        stage := .begun
        recorded := r.recorded
        snapshot := { r.evidence with phase := .accepted } })
  | .begun => some (s.put id { c.update fun v => { v with accepted := true } with stage := .ready })
  | .ready =>
    if s.connected then some (s.put id { c with stage := .sent, place := some .channel })
    else some (s.put id { c with stage := .unsent })
  | .unsent =>
    if s.lock.isSome then none else some ({ s with pending := none }.put id { c with stage := .withdrawn })
  | .withdrawn => some (s.put id { c.update unavailable with stage := .failed })
  | .failed =>
    if c.permit then none
    else some (s.put id { c with stage := .returned (.status .badResourceUnavailable) })
  | .sent =>
    some ({ s with localAcks := s.localAcks ++ [CommandAckUpdate.mk (some id) .waiting] }.put id
      { c with stage := .returned (.status .good) })
  | .returned answer =>
    match c.origin, answer with
    | .tracked, .status code =>
      some (s.put id { c.update (settle code r.bits r.debug) with stage := .settled })
    | _, _ => none
  | .settled => none

/-- The next step of `forward_hex_command` and of the callback around it. -/
def State.callMethod (cfg : Config) (s : State) (id : Nat) (c : Cmd) (r : Reply) : Option State :=
  match c.stage with
  | .entered =>
    match s.admitCommand r.maintenance with
    | .ok port => some ({ s with port := port }.put id { c with stage := .reserved, permit := true })
    | .error e =>
      some (s.put id { c with
        stage := .returned (if e.code = "busy" then .status .badWaitingForResponse
          else .text (e.code ++ ": " ++ e.message)) })
  | .reserved =>
    some (s.put id { c with
      stage := .begun
      recorded := r.recorded
      snapshot := { r.evidence with phase := .accepted } })
  | .begun => some (s.put id { c.update fun v => { v with accepted := true } with stage := .ready })
  | .ready =>
    if s.connected then some (s.put id { c with stage := .sent, place := some .channel })
    else some (s.put id { c with stage := .unsent })
  | .unsent => some (s.put id { c.update unavailable with stage := .failed })
  | .failed =>
    if c.permit then none
    else some (s.put id { c with stage := .returned (.text workerGone.message) })
  | .sent => some (s.put id { c with stage := .returned (.text (forwarded cfg.portId c.data.deviceId)) })
  | _ => none

def State.proceed (cfg : Config) (s : State) (id : Nat) (r : Reply) : Option State :=
  (s.commands id).bind fun c =>
    match c.origin with
    | .node | .tracked => s.writeNode cfg id c r
    | .method => s.callMethod cfg id c r

/-! ## Permits -/

/-- Places where the worker has dropped the permit, or is about to. -/
def Place.releases : Place → Bool
  | .channel | .queued | .notifying | .expiring _ | .directSent _ | .unsent | .acknowledged
  | .failing | .leaving | .done => true
  | _ => false

/-- A writer that returns with an error drops the command; a worker drops the permit of a command
that it rejects, or whose input and output are over. -/
def Cmd.mayRelease (c : Cmd) : Bool :=
  match c.stage, c.place with
  | .refused _, _ | .failed, _ => c.permit
  | _, some place => c.permit && Place.releases place
  | _, none => false

/-- `PermitInner::drop`. -/
def State.release (s : State) (id : Nat) : Option State :=
  (s.commands id).bind fun c =>
    if c.mayRelease then
      some ({ s with port := { s.port with pendingCommands := s.port.pendingCommands - 1 } }.put id
        { c with permit := false })
    else none

/-! ## The worker -/

inductive Serve where
  | enqueue
  | reject (reason : String)
  | shutdown
  | pop
  | work (o : Outcome)
  | panic
  /-- The command goes down with the channel or the queue that holds it. -/
  | lose

def Serve.action : Serve → Option Serial.Action
  | .enqueue => some .enqueue
  | .reject reason => some (.reject reason)
  | .shutdown => some .shutdown
  | .pop => some .pop
  | .work o => some (.work o)
  | .panic => some .panic
  | .lose => none

/-- The permit is dropped before a rejection or an outcome is recorded. -/
def Serve.waitsFor (w : Serve) (place : Place) (permit : Bool) : Bool :=
  match w with
  | .enqueue | .pop => permit
  | .reject _ | .shutdown => !permit
  | .work _ => !permit || !Place.releases place || place = .leaving
  | .panic | .lose => true

/-- What `send_ack_status` sends after it has updated the evidence. -/
def notification : Serve → Place → Option CommandAckStatus
  | .work _, .waiting _ => some .waiting
  | .work _, .acknowledged => some .received
  | .work _, .failing | .work _, .notifying => some .failed
  | _, _ => none

def Cmd.sys (c : Cmd) (place : Place) (commandRetryCount clock : Nat) : Serial.Sys :=
  { Serial.Sys.initial c.submission commandRetryCount clock c.snapshot with
    snapshot := c.snapshot
    place := place }

/-- The step of the worker with the command at this place: its evidence and where it stands then.
The worker has one command in hand at a time; here it may have several. -/
def Cmd.serve (c : Cmd) (cfg : Config) (clock : Nat) (w : Serve) (place : Place) :
    Option (Snapshot × Place) :=
  match w.action with
  | some a => (Serial.step (c.sys place cfg.commandRetryCount clock) a).map fun t => (t.snapshot, t.place)
  | none => if place = .channel ∨ place = .queued ∨ place = .notifying then some (c.snapshot, .done) else none

def State.serve (cfg : Config) (s : State) (id : Nat) (w : Serve) : Option State :=
  (s.commands id).bind fun c =>
    c.place.bind fun place =>
      if c.outbox.isSome || !w.waitsFor place c.permit then none
      else
        (c.serve cfg s.clock w place).map fun (snapshot, place') =>
          s.put id { c with
            snapshot := snapshot
            place := some place'
            outbox := notification w place }

def State.notify (s : State) (id : Nat) : Option State :=
  (s.commands id).bind fun c =>
    c.outbox.map fun status =>
      { s with acks := s.acks ++ [CommandAckUpdate.mk (some id) status] }.put id { c with outbox := none }

/-! ## The ACK task -/

/-- `apply_ack_pending_state`: the record afterwards, and whether the node is written. -/
def applyAckPendingState (pending : Option PendingCommand) (update : CommandAckUpdate) :
    Option PendingCommand × Bool :=
  match update.ackId, pending with
  | none, _ | _, none => (pending, false)
  | some ackId, some previous =>
    if previous.ackId ≠ ackId then (pending, false)
    else (if isTerminal update.status then none else pending, true)

/-- `process_command_ack_update`, which holds the pending lock. -/
def State.process (s : State) (update : CommandAckUpdate) : Option State :=
  if s.lock.isSome then none
  else
    let applied := applyAckPendingState s.pending update
    some { s with
      pending := applied.1
      node := if applied.2 then
          s.node ++ [⟨update.ackId.getD 0, update.status, s.accepted.getLast?⟩]
        else s.node }

/-- One pass of `drain_command_ack_updates` through the channel of the worker. -/
def State.drain (s : State) : Option State :=
  match s.acks, s.candidate with
  | update :: rest, none => { s with acks := rest }.process update
  | _, _ => none

def State.drainLocal (s : State) : Option State :=
  match s.localAcks, s.candidate with
  | update :: rest, none => { s with localAcks := rest }.process update
  | _, _ => none

/-- `collect_expired_pending_commands` on this port. -/
def State.collect (s : State) : Option State :=
  match s.pending with
  | some command =>
    if s.lock.isSome || s.candidate.isSome || decide (s.clock < command.deadline) then none
    else some { s with candidate := some (command.ackId, false) }
  | none => none

/-- The expiry in the evidence of the candidate. -/
def State.expire (s : State) : Option State :=
  match s.candidate with
  | some (id, false) =>
    let s := { s with candidate := some (id, true) }
    some (match s.commands id with
      | some c => s.put id (c.update Serial.swept)
      | none => s)
  | _ => none

def State.sweep (s : State) : Option State :=
  match s.candidate with
  | some (id, true) => { s with candidate := none }.process ⟨some id, .failed⟩
  | _ => none

/-! ## Runs -/

inductive Action where
  | tick (ticks : Nat)
  /-- Controls and the reports of the worker; they do not touch the count of permits. -/
  | configure (port : Port)
  | cancel
  /-- The worker ends and its end of the channel is gone. -/
  | stop
  | arrive (id : Nat) (request : Request)
  | proceed (id : Nat) (reply : Reply)
  | release (id : Nat)
  | serve (id : Nat) (w : Serve)
  | notify (id : Nat)
  /-- The tracker forgets the evidence of a command. -/
  | forget (id : Nat)
  | drain
  | drainLocal
  | collect
  | expire
  | sweep

def State.arrive (s : State) (id : Nat) (request : Request) : Option State :=
  if (s.commands id).isSome then none
  else
    some (match request.command with
      | some c => s.put id c
      | none => s)

def step (cfg : Config) (s : State) : Action → Option State
  | .tick ticks => some { s with clock := s.clock + ticks }
  | .configure port => some { s with port := { port with pendingCommands := s.port.pendingCommands } }
  | .cancel => some { s with shutdown := true }
  | .stop => some { s with connected := false }
  | .arrive id request => s.arrive id request
  | .proceed id reply => s.proceed cfg id reply
  | .release id => s.release id
  | .serve id w => s.serve cfg id w
  | .notify id => s.notify id
  | .forget id => (s.commands id).map fun c => s.put id { c with recorded := false }
  | .drain => s.drain
  | .drainLocal => s.drainLocal
  | .collect => s.collect
  | .expire => s.expire
  | .sweep => s.sweep

end RcdServer.Opc
