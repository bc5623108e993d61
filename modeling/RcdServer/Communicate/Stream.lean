import RcdServer.Communicate.Frame
import RcdServer.Communicate.Points

/-!
# The receiving stream

`run_stream` of `synchronization.rs` and the worker of `poller.rs` around it. A round reads once,
hands what the decoder has found to the task's layout, recovers a frame whose deadline has passed,
looks at the receive timeout and may send. Reads, clock readings and the outcome of a write are
inputs of the round.
-/
namespace RcdServer.Communicate.Stream

open Points

variable {F32 F64 : Type}

/-! ## Reports -/

/-- `{b:02X}`. -/
def hexDigits (b : UInt8) : List Char :=
  let digit (n : Nat) : Char := Char.ofNat (if n < 10 then 48 + n else 55 + n)
  [digit (b.toNat / 16), digit (b.toNat % 16)]

def hex (bytes : List UInt8) : String := String.ofList (bytes.flatMap hexDigits)

def fireCode (bytes : List UInt8) : UInt32 :=
  ((fireStates.find? fun x => x.2 == bytes).map (·.1)).getD 0

def decodeField (f : Field) (payload : List UInt8) : Value F32 F64 :=
  let bytes := (payload.drop f.offset).take f.len
  match f.kind with
  | .unsigned =>
    .uint32 (if bytes.length = 2 then (u16At bytes 0).toUInt32 else (bytes.getD 0 0).toUInt32)
  | .hex => .string (hex bytes)
  | .fire => .uint32 (fireCode bytes)

def decodeReport (layout : Layout) (payload : List UInt8) :
    Except String (List (PointUpdate F32 F64)) :=
  match layout.validatePayload payload with
  | .error e => .error e
  | .ok () => .ok (layout.fields.map fun f => ⟨f.input, decodeField f payload, .good, ""⟩)

inductive Response (F32 F64 : Type) where
  | ignore
  | matched (points : List (PointUpdate F32 F64))

/-- `ReportProtocol::response`, with the text that the error displays. -/
def response (layout : Layout) (payload : List UInt8) : Except String (Response F32 F64) :=
  if payload.length < 2 then .error "device protocol: missing unit identity"
  else if payload.take 2 ≠ toLeBytes layout.block then .ok .ignore
  else
    match decodeReport layout payload with
    | .error e => .error ("device protocol: " ++ e)
    | .ok points => .ok (.matched points)

def frameErrorText : FrameError → String
  | .length => "invalid frame length or configured limit"
  | .checksum => "CRC32 mismatch"
  | .compression message => "invalid compressed stream: " ++ message
  | .decompression message => "zlib decode failed: " ++ message
  | .payloadLength => "decompressed length or compressed stream boundary mismatch"
  | .bufferLimit => "stream input exceeds bounded frame buffer"

/-! ## The schedule -/

/-- What the stream reads of the port's configuration. -/
structure Port where
  id : String
  maxFrameBytes : Nat
  maxPayloadBytes : Nat
  frameTimeoutMs : Nat
  sendIntervalMs : Nat
  initialDelayMs : Nat
  idleGapMs : Nat
  receiveTimeoutMs : Nat
  deriving DecidableEq

def Port.limits (p : Port) : Limits := ⟨p.maxFrameBytes, p.maxPayloadBytes⟩

/-- `Duration::from_millis`, in nanoseconds. -/
def millis (n : Nat) : Nat := n * 1000000

structure Schedule where
  due : Instant
  lastRx : Instant
  partialSince : Option Instant
  period : Nat
  gap : Nat
  frameTimeout : Nat
  deriving DecidableEq

namespace Schedule

def new (p : Port) (now : Instant) : Schedule where
  due := now + millis p.initialDelayMs
  lastRx := now
  partialSince := none
  period := millis p.sendIntervalMs
  gap := millis p.idleGapMs
  frameTimeout := millis p.frameTimeoutMs

def received (s : Schedule) (now : Instant) (incomplete : Bool) : Schedule :=
  { s with
    lastRx := now
    partialSince := if incomplete then some (s.partialSince.getD now) else none }

def partialExpired (s : Schedule) (now : Instant) : Bool :=
  s.partialSince.any fun t => decide (now - t ≥ s.frameTimeout)

def discardPartial (s : Schedule) : Schedule := { s with partialSince := none }

def maySend (s : Schedule) (now : Instant) : Bool :=
  decide (now ≥ s.due) && s.partialSince.isNone && decide (now - s.lastRx ≥ s.gap)

def sentOrSkipped (s : Schedule) (now : Instant) : Schedule := { s with due := now + s.period }

end Schedule

/-! ## One connection -/

/-- The receiver of one task. -/
structure Receiver where
  config : Config
  port : Port
  task : String
  layout : Layout
  codec : Codec

/-- What the stream has recorded at the store for its task. -/
inductive Event where
  | published (payload : List UInt8) (processed : Instant)
  | failed (quality : Quality) (error : String)
  | timedOut
  deriving DecidableEq

/-- The variables of `run_stream` with the store; `opened` and `log` are history. -/
structure Conn (F32 F64 : Type) where
  store : Store F32 F64
  decoder : FrameDecoder
  schedule : Schedule
  lastValid : Instant
  timedOut : Bool
  receivedValid : Bool
  opened : Instant
  log : List Event

/-- How a part of the loop's body ends: it goes on, breaks the loop, or returns an error. -/
inductive Flow where
  | go
  | left
  | failed (e : StoreError)
  deriving DecidableEq

def andThen (x : Conn F32 F64 × Flow) (f : Conn F32 F64 → Conn F32 F64 × Flow) :
    Conn F32 F64 × Flow :=
  match x.2 with
  | .go => f x.1
  | flow => (x.1, flow)

/-- The readings of the wall clock for one payload. -/
structure Clocks where
  attempted : Utc
  source : Utc
  succeeded : Utc

inductive ReadResult where
  | bytes (chunk : List UInt8)
  -- `TimedOut`, `WouldBlock` and `Interrupted`.
  | retry
  | error (debug : String)
  deriving DecidableEq

/-- What became of a transmit slot: the mailbox was empty, or held a payload. -/
inductive Sent where
  | nothing
  | encodeError (text : String)
  | written
  | writeError (text : String)
  deriving DecidableEq

structure Round where
  read : ReadResult
  received : Instant
  receivedClocks : Nat → Clocks
  checked : Instant
  recoveredClocks : Nat → Clocks
  sent : Sent
  sentAt : Instant

namespace Conn

section Body

variable [Zero F32] [Zero F64] (w : Receiver)

def new (w : Receiver) (store : Store F32 F64) (decoder : FrameDecoder)
    (scheduled lastValid : Instant) : Conn F32 F64 where
  store := store
  decoder := decoder
  schedule := .new w.port scheduled
  lastValid := lastValid
  timedOut := false
  receivedValid := false
  opened := lastValid
  log := []

def fail (c : Conn F32 F64) (error : String) : Conn F32 F64 × Flow :=
  let quality := if c.timedOut then .noCommunication else .configuration
  match c.store.fail w.config w.task quality error with
  | .error e => (c, .failed e)
  | .ok store => ({ c with store := store, log := .failed quality error :: c.log }, .go)

/-- The body of the loops over the payloads. -/
def handle [Floating F32] [Floating F64] (c : Conn F32 F64) (now : Instant) (clocks : Clocks)
    (payload : List UInt8) : Conn F32 F64 × Flow :=
  match response w.layout payload with
  | .ok (.matched points) =>
    match c.store.attempt w.config w.task clocks.attempted with
    | .error e => (c, .failed e)
    | .ok store =>
      match store.publish w.config w.task points clocks.source clocks.succeeded with
      | .ok store =>
        ({ c with
            store := store
            lastValid := now
            timedOut := false
            receivedValid := true
            log := .published payload now :: c.log }, .go)
      | .error e => fail w { c with store := store } e.text
  | .ok .ignore => (c, .go)
  | .error e => c.fail w e

def handleAll [Floating F32] [Floating F64] (now : Instant) :
    Conn F32 F64 → (Nat → Clocks) → List (List UInt8) → Conn F32 F64 × Flow
  | c, _, [] => (c, .go)
  | c, clocks, payload :: payloads =>
    andThen (c.handle w now (clocks 0) payload) fun c =>
      handleAll now c (fun n => clocks (n + 1)) payloads

/-- The warnings that `report_frame_errors` logs are left out. -/
def reportFrameErrors (c : Conn F32 F64) (frames : FeedResult) (expired : Bool) :
    Conn F32 F64 × Flow :=
  if frames.rejectedFrames = 0 ∧ frames.discardedBytes = 0 ∧ expired = false then (c, .go)
  else
    match c.store.recordFrameErrors w.port.id frames.rejectedFrames frames.discardedBytes expired with
    | .error e => (c, .failed e)
    | .ok store => ({ c with store := store }, .go)

def disconnected (c : Conn F32 F64) (error : String) : Conn F32 F64 × Flow :=
  match c.store.portState w.port.id "Disconnected" error false with
  | .error e => (c, .failed e)
  | .ok store => ({ c with store := store }, .left)

def feed [Floating F32] [Floating F64] (c : Conn F32 F64) (r : Round) (chunk : List UInt8) :
    Conn F32 F64 × Flow :=
  match c.decoder.feed w.codec chunk with
  | (.ok frames, decoder) =>
    andThen (reportFrameErrors w { c with decoder := decoder } frames false) fun c =>
      let schedule := if frames.payloads.isEmpty then c.schedule else c.schedule.discardPartial
      handleAll w r.received
        { c with schedule := schedule.received r.received decoder.hasPartialFrame }
        r.receivedClocks frames.payloads
  | (.error e, decoder) =>
    fail w { c with decoder := decoder, schedule := c.schedule.received r.received false }
      (frameErrorText e)

def receive [Floating F32] [Floating F64] (r : Round) (c : Conn F32 F64) : Conn F32 F64 × Flow :=
  match r.read with
  | .bytes chunk =>
    if 0 < chunk.length ∧ chunk.length ≤ min w.port.maxFrameBytes 1024 then c.feed w r chunk
    else c.disconnected w ("serial receive: Ok(" ++ toString chunk.length ++ ")")
  | .retry => (c, .go)
  | .error debug => c.disconnected w ("serial receive: " ++ debug)

def expire [Floating F32] [Floating F64] (r : Round) (c : Conn F32 F64) : Conn F32 F64 × Flow :=
  if c.schedule.partialExpired r.checked then
    let (recovered, decoder) := c.decoder.recoverExpired w.codec
    andThen (reportFrameErrors w { c with decoder := decoder } recovered true) fun c =>
      andThen (handleAll w r.checked c r.recoveredClocks recovered.payloads) fun c =>
        ({ c with schedule := c.schedule.discardPartial }, .go)
  else (c, .go)

def checkTimeout (r : Round) (c : Conn F32 F64) : Conn F32 F64 × Flow :=
  if !c.timedOut && decide (r.checked - c.lastValid ≥ millis w.port.receiveTimeoutMs) then
    match c.store.fail w.config w.task .noCommunication "peer snapshot timeout" with
    | .error e => (c, .failed e)
    | .ok store =>
      ({ c with store := store, timedOut := true, log := .timedOut :: c.log }, .go)
  else (c, .go)

def send (r : Round) (c : Conn F32 F64) : Conn F32 F64 × Flow :=
  if c.schedule.maySend r.checked then
    match r.sent with
    | .encodeError text => (c, .failed (.invalidBatch text))
    | .writeError text => c.disconnected w text
    | _ => ({ c with schedule := c.schedule.sentOrSkipped r.sentAt }, .go)
  else (c, .go)

/-- The body of the loop. -/
def round [Floating F32] [Floating F64] (c : Conn F32 F64) (r : Round) : Conn F32 F64 × Flow :=
  andThen (andThen (andThen (receive w r c) (expire w r)) (checkTimeout w r)) (send w r)

end Body

end Conn

/-! ## The worker -/

/-- A call of another worker on the same store. -/
inductive StoreCall (F32 F64 : Type) where
  | portState (id status error : String) (reconnected : Bool)
  | attempt (task : String) (now : Utc)
  | recordFrameErrors (id : String) (rejected discarded : Nat) (expired : Bool)
  | publish (task : String) (updates : List (PointUpdate F32 F64)) (sourceTime now : Utc)
  | fail (task : String) (quality : Quality) (error : String)

def StoreCall.task? : StoreCall F32 F64 → Option String
  | .publish task .. => some task
  | .fail task .. => some task
  | _ => none

section Others

variable [Zero F32] [Zero F64] [Floating F32] [Floating F64]

def StoreCall.run (config : Config) (store : Store F32 F64) :
    StoreCall F32 F64 → Except StoreError (Store F32 F64)
  | .portState id status error reconnected => store.portState id status error reconnected
  | .attempt task now => store.attempt config task now
  | .recordFrameErrors id rejected discarded expired =>
    store.recordFrameErrors id rejected discarded expired
  | .publish task updates sourceTime now => store.publish config task updates sourceTime now
  | .fail task quality error => store.fail config task quality error

/-- A call that fails has written nothing. -/
def StoreCall.apply (config : Config) (store : Store F32 F64) (call : StoreCall F32 F64) :
    Store F32 F64 :=
  match call.run config store with
  | .ok store => store
  | .error _ => store

end Others

inductive Phase (F32 F64 : Type) where
  | idle (store : Store F32 F64)
  | streaming (conn : Conn F32 F64)
  -- `run_stream` has returned and its failure is not recorded yet.
  | lost (store : Store F32 F64)
  | ended (store : Store F32 F64)

structure Sys (F32 F64 : Type) where
  phase : Phase F32 F64
  everOpened : Bool

inductive Action (F32 F64 : Type) where
  | openFailed (message : String)
  | opened (scheduled lastValid : Instant)
  | round (r : Round)
  | closed
  | stop
  | other (call : StoreCall F32 F64)

section Worker

variable [Zero F32] [Zero F64] (w : Receiver)

def init : Sys F32 F64 := ⟨.idle (.new w.config), false⟩

/-- A failure of the worker's only task and the state of its port; the waiting times are left out. -/
def failTasks (store : Store F32 F64) (quality : Quality) (error : String) :
    Except StoreError (Store F32 F64) :=
  store.fail w.config w.task quality error

def openFailed (store : Store F32 F64) (message : String) : Phase F32 F64 :=
  match store.portState w.port.id "OpenFailed" message false with
  | .error _ => .ended store
  | .ok store =>
    match failTasks w store .noCommunication message with
    | .error _ => .ended store
    | .ok store => .idle store

def opened (store : Store F32 F64) (everOpened : Bool) (scheduled lastValid : Instant) :
    Phase F32 F64 :=
  match store.portState w.port.id "Open" "" everOpened with
  | .error _ => .ended store
  | .ok store =>
    match FrameDecoder.new w.port.limits with
    -- The limits are validated with the configuration.
    | .error _ => .ended store
    | .ok decoder => .streaming (.new w store decoder scheduled lastValid)

def closed (store : Store F32 F64) : Phase F32 F64 :=
  let last := ((store.ports w.port.id).map (·.lastError)).getD ""
  let error := if last.isEmpty then "serial connection lost" else last
  match failTasks w store .noCommunication error with
  | .error _ => .ended store
  | .ok store =>
    match store.portState w.port.id "Reconnecting" error false with
    | .error _ => .ended store
    | .ok store => .idle store

def finish (store : Store F32 F64) : Phase F32 F64 :=
  match failTasks w store .outOfService "acquisition stopped" with
  | .error _ => .ended store
  | .ok store =>
    match store.portState w.port.id "Stopped" "" false with
    | .error _ => .ended store
    | .ok store => .ended store

def Phase.store : Phase F32 F64 → Store F32 F64
  | .idle store => store
  | .streaming conn => conn.store
  | .lost store => store
  | .ended store => store

def Phase.withStore (store : Store F32 F64) : Phase F32 F64 → Phase F32 F64
  | .idle _ => .idle store
  | .streaming conn => .streaming { conn with store := store }
  | .lost _ => .lost store
  | .ended _ => .ended store

def roundPhase [Floating F32] [Floating F64] (conn : Conn F32 F64) (r : Round) : Phase F32 F64 :=
  match conn.round w r with
  | (conn, .go) => .streaming conn
  | (conn, .left) => .lost conn.store
  | (conn, .failed _) => .ended conn.store

/-- Another worker publishes and fails only its own tasks. -/
def step [Floating F32] [Floating F64] (s : Sys F32 F64) (a : Action F32 F64) :
    Option (Sys F32 F64) :=
  match a with
  | .other call =>
    if call.task? = some w.task then none
    else some { s with phase := s.phase.withStore (call.apply w.config s.phase.store) }
  | .openFailed message =>
    match s.phase with
    | .idle store => some { s with phase := openFailed w store message }
    | _ => none
  | .opened scheduled lastValid =>
    match s.phase with
    | .idle store => some ⟨opened w store s.everOpened scheduled lastValid, true⟩
    | _ => none
  | .round r =>
    match s.phase with
    | .streaming conn => some { s with phase := roundPhase w conn r }
    | _ => none
  | .closed =>
    match s.phase with
    | .lost store => some { s with phase := closed w store }
    | _ => none
  | .stop =>
    match s.phase with
    | .ended _ => none
    | phase => some { s with phase := finish w phase.store }

end Worker

end RcdServer.Communicate.Stream
