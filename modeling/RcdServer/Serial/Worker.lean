import RcdServer.Lib.Run
import RcdServer.Serial.Assembly

/-!
# The worker of one port

The loop that polls as a primary, listens as a standby and takes the control commands
of the operator. Everything the environment decides in one pass (what the writes and
reads return, whether a queued control command is due) is the argument of the action.
-/
namespace RcdServer.Serial

open Protocol

/-! ## Writing -/

/-- What happens to one write. -/
structure Transmit where
  /-- The frame is empty, or too long for the port's speed. -/
  dropped : Bool
  written : Bool
  reopen : Reopen
  deriving DecidableEq

/-- A control command of the queue: one write, then possibly a broken read of its answer. -/
structure CommandTurn where
  send : Transmit
  ackBroken : Option Reopen
  deriving DecidableEq

/-- How a version query ends on the wire. -/
structure VersionTurn where
  reopenBefore : Reopen
  send : Transmit
  readBroken : Option Reopen
  deriving DecidableEq

namespace SerialManager

def sendCommand (m : SerialManager) (t : Transmit) : SerialManager × Bool :=
  if t.dropped then (m, false)
  else if !m.portOpen then (m.reconnect t.reopen, false)
  else if t.written then (m, true)
  else (m.closeAndReconnect t.reopen, false)

def executeCommandTurn (m : SerialManager) (t : CommandTurn) : SerialManager :=
  let (m, sent) := m.sendCommand t.send
  match sent, t.ackBroken with
  | true, some reopen => m.closeAndReconnect reopen
  | _, _ => m

def executeCommand (m : SerialManager) (turns : List CommandTurn) : SerialManager :=
  turns.foldl executeCommandTurn m

/-- The version query on the wire, from clearing the input to clearing it again. -/
def versionTransaction (m : SerialManager) (deviceId : UInt8) (t : VersionTurn) : SerialManager :=
  let (m, sent) := ((m.keepPending []).note (.queried deviceId)).sendCommand t.send
  match sent, t.readBroken with
  | true, some reopen => m.closeAndReconnect reopen
  | true, none => m.keepPending []
  | false, _ => if m.portOpen then m.keepPending [] else m

def openForQuery (m : SerialManager) (reopen : Reopen) : SerialManager :=
  if m.portOpen then m else m.reconnect reopen

/-- `perform_station_version_query`, less its result. -/
def performStationVersionQuery (m : SerialManager) (deviceId : UInt8) (t : VersionTurn) :
    SerialManager :=
  match m.deviceIndex deviceId with
  | none => m
  | some index =>
    if !m.reads index then m
    else if m.currentRun ≠ .primary then m
    else if !(m.openForQuery t.reopenBefore).portOpen then m.openForQuery t.reopenBefore
    else (m.openForQuery t.reopenBefore).versionTransaction deviceId t

/-! ## Receiving -/

def receiveData (m : SerialManager) (turns : List Turn) (reopen : Reopen) : SerialManager :=
  match m.receiveDataAttempt turns reopen with
  | (m, .retryable failure) => m.commitQueryFailure failure true
  | (m, _) => m

end SerialManager

structure QueryTurns where
  first : List Turn
  firstReopen : Reopen
  resend : Transmit
  second : List Turn
  secondReopen : Reopen
  deriving DecidableEq

namespace SerialManager

/-- The second half of `receive_query_with_retry`: the query once more, and its answer. -/
def retryQuery (m : SerialManager) (deviceId : UInt8) (failure : QueryFailure) (q : QueryTurns) :
    SerialManager :=
  let (m, sent) := ((m.keepPending []).note (.queried deviceId)).sendCommand q.resend
  if !sent then m.commitQueryFailure failure m.portOpen
  else
    match m.receiveDataAttempt q.second q.secondReopen with
    | (m, .retryable failure) => m.commitQueryFailure failure true
    | (m, _) => m

def receiveQueryWithRetry (m : SerialManager) (retryCount : Nat) (q : QueryTurns) : SerialManager :=
  match m.portConfig.devices[m.index]? with
  | none => m
  | some dev =>
    let queryIndex := m.index
    match m.receiveDataAttempt q.first q.firstReopen with
    | (m, .retryable failure) =>
      if retryCount = 0 ∨ m.currentRun ≠ .primary ∨ m.index ≠ queryIndex then
        m.commitQueryFailure failure true
      else m.retryQuery dev.config.deviceId failure q
    | (m, _) => m

end SerialManager

/-! ## One pass of the loop -/

structure Cycle where
  /-- The control command that is due: whether it reports its ACK, and its writes. -/
  command : Option (Bool × List CommandTurn)
  send : Transmit
  query : QueryTurns
  listen : List Turn
  listenReopen : Reopen
  /-- The version query at the head of its queue. -/
  version : Option (UInt8 × VersionTurn)
  deriving DecidableEq

inductive CycleResult where
  | idle | querySent | passiveReceive | commandHandled
  deriving DecidableEq

namespace SerialManager

/-- A station that has timed out too often sits out some rounds: the new state, and whether it does. -/
def skipRound (m : SerialManager) (state : DeviceRuntimeState) : SerialManager × Bool :=
  if state.timeoutCount > deviceTimeoutSkip then
    if state.currentRound > deviceSkipRounds then
      (m.modifyState m.index fun s => { s with currentRound := 0 }, false)
    else (m.modifyState m.index fun s => { s with currentRound := s.currentRound + 1 }, true)
  else (m, false)

def runPrimaryCycle (m : SerialManager) (c : Cycle) : SerialManager × CycleResult :=
  match c.command with
  | some (_, turns) => (m.executeCommand turns, .commandHandled)
  | none =>
    match m.portConfig.devices[m.index]?, m.deviceStates[m.index]? with
    | some dev, some state =>
      let (m, skipped) := m.skipRound state
      if skipped then (m, .idle)
      else if !state.isEnabled || !state.readEnabled then (m, .idle)
      else
        let (m, sent) := ((m.keepPending []).note (.queried dev.config.deviceId)).sendCommand c.send
        (m, if sent then .querySent else .idle)
    | _, _ => (m, .idle)

def runSecondaryCycle (m : SerialManager) (c : Cycle) : SerialManager × CycleResult :=
  match c.command with
  | some (true, turns) => (m.executeCommand turns, .commandHandled)
  | some (false, turns) => (m.executeCommand turns, .passiveReceive)
  | none => (m, .passiveReceive)

def runCycle (m : SerialManager) (c : Cycle) : SerialManager × CycleResult :=
  match m.currentRun with
  | .primary => m.runPrimaryCycle c
  | .secondary => m.runSecondaryCycle c

def receiveAfter (m : SerialManager) (retryCount : Nat) (c : Cycle) (result : CycleResult) :
    SerialManager :=
  match result with
  | .querySent => m.receiveQueryWithRetry retryCount c.query
  | .passiveReceive => m.receiveData c.listen c.listenReopen
  | .idle | .commandHandled => m

def nextIndex (m : SerialManager) : SerialManager :=
  { m with index := (m.index + 1) % m.portConfig.devices.length }

/-- `execute_one_scheduled_station_version_query`. -/
def executeScheduledQuery (m : SerialManager) (c : Cycle) : SerialManager :=
  match c.version with
  | some (deviceId, t) => m.performStationVersionQuery deviceId t
  | none => m

/-- The next station, and at the end of a round one scheduled version query. -/
def advanceIndex (m : SerialManager) (c : Cycle) (result : CycleResult) : SerialManager :=
  if m.currentRun = .primary ∧ result ≠ .commandHandled then
    if (result = .querySent ∨ result = .idle) ∧ m.nextIndex.index = 0 then
      m.nextIndex.executeScheduledQuery c
    else m.nextIndex
  else m

def workerCycle (m : SerialManager) (retryCount : Nat) (c : Cycle) : SerialManager :=
  if !m.portConfig.status || m.portConfig.devices.isEmpty then m
  else
    let (m, result) := m.runCycle c
    (m.receiveAfter retryCount c result).advanceIndex c result

end SerialManager

inductive WorkerAction where
  | portStatus (enabled : Bool) (reopen : Reopen)
  | deviceSetting (deviceId : UInt8) (enabled : Bool)
  | deviceReadSetting (deviceId : UInt8) (enabled : Bool)
  | queryStationVersion (deviceId : UInt8) (t : VersionTurn)
  /-- A panic of the loop, caught by its supervisor. -/
  | restart (reopen : Reopen)
  | cycle (c : Cycle)
  deriving DecidableEq

namespace SerialManager

def act (retryCount : Nat) (m : SerialManager) : WorkerAction → SerialManager
  | .portStatus enabled reopen => m.setPortEnabled enabled reopen
  | .deviceSetting deviceId enabled => m.setDeviceEnabled deviceId enabled
  | .deviceReadSetting deviceId enabled => m.setDeviceReadEnabled deviceId enabled
  | .queryStationVersion deviceId t => m.performStationVersionQuery deviceId t
  | .restart reopen => m.prepareWorkerRestart.reconnect reopen
  | .cycle c => m.workerCycle retryCount c

def step (retryCount : Nat) (m : SerialManager) (a : WorkerAction) : Option SerialManager :=
  some (m.act retryCount a)

end SerialManager

/-- No action of the worker is ever refused. -/
theorem exec_step (retryCount : Nat) (m : SerialManager) (actions : List WorkerAction) :
    Lib.Run.exec (SerialManager.step retryCount) m actions =
      some (actions.foldl (SerialManager.act retryCount) m) := by
  induction actions generalizing m with
  | nil => rfl
  | cons a actions ih => exact ih (m.act retryCount a)

/-- The record `SerialManager::new` fills in. -/
def freshManager (portConfig : SerialPortConfig) (runOn currentRun : RunLocation) (opened : Bool) :
    SerialManager where
  portOpen := portConfig.status && opened
  portConfig := portConfig
  deviceStates := portConfig.devices.map fun _ => {}
  latestStatusCache := ∅
  broadcasts := []
  index := 0
  runOn := runOn
  currentRun := currentRun
  timeOutCount := 0
  parseFailCount := 0
  rxPending := []
  portOfflinePublished := false
  log := []

/-- `SerialManager::new`; `opened` is how opening an enabled port went. -/
def newManager (portConfig : SerialPortConfig) (runOn currentRun : RunLocation) (opened : Bool) :
    SerialManager :=
  if portConfig.status && !opened then
    (freshManager portConfig runOn currentRun opened).publishPortOfflineOnce
  else if !portConfig.status then
    (freshManager portConfig runOn currentRun opened).publishPortDisabled
  else freshManager portConfig runOn currentRun opened

end RcdServer.Serial
