import RcdServer.Protocol.Frame

/-!
# The manager of one serial port

The state of one port with all its stations, what it publishes and how it counts
failures and changes its role. Reading bytes off the wire is in the next module.
Instants, log texts and rate limits of logs decide nothing here and are left out;
whether a closed port can be opened again is an input.
-/
namespace RcdServer.Serial

open Protocol

/-! ## State -/

inductive RunLocation where
  | primary | secondary
  deriving DecidableEq

theorem RunLocation.eq_primary_or_secondary (r : RunLocation) : r = .primary ∨ r = .secondary := by
  cases r
  · exact .inl rfl
  · exact .inr rfl

structure SerialPortConfig where
  portNumber : String
  devices : List DeviceConfig
  status : Bool

structure DeviceStatus where
  id : UInt64
  deviceId : UInt8
  com : String
  comStatus : Bool
  deviceStatus : Bool
  value : PointMap
  rawData : List UInt8

def DeviceStatus.good (s : DeviceStatus) : Bool := s.comStatus && s.deviceStatus

structure DeviceRuntimeState where
  timeoutCount : UInt32 := 0
  currentRound : UInt32 := 0
  parseFailCount : UInt32 := 0
  lastData : List UInt8 := []
  lastComStatus : Option Bool := none
  lastDeviceStatus : Option Bool := none
  sameCount : UInt32 := 0
  isEnabled : Bool := true
  readEnabled : Bool := true
  deriving DecidableEq

/-- What the port has done; the code keeps no such record and nothing reads it. -/
inductive Event where
  | published (status : DeviceStatus)
  /-- A frame with a valid forward header of a configured device came in under this role. -/
  | header (role : RunLocation)
  /-- The packet behind such a header was valid too. -/
  | forwarded
  | failed
  | switched (role : RunLocation)
  | queried (deviceId : UInt8)

structure SerialManager where
  portOpen : Bool
  portConfig : SerialPortConfig
  deviceStates : List DeviceRuntimeState
  latestStatusCache : AList fun _ : String × UInt8 => DeviceStatus
  broadcasts : List DeviceStatus
  index : Nat
  runOn : RunLocation
  currentRun : RunLocation
  timeOutCount : UInt32
  parseFailCount : UInt32
  rxPending : List UInt8
  portOfflinePublished : Bool
  /-- Newest first. -/
  log : List Event

/-! ## Thresholds -/

def deviceTimeoutSkip : UInt32 := 3
def deviceSkipRounds : UInt32 := 10
def portFailoverTimeout : UInt32 := 20
def parseFailFailover : UInt32 := 100
def sameDataBroadcast : UInt32 := 10

/-! ## Publication -/

def DeviceRuntimeState.shouldBroadcast (s : DeviceRuntimeState) (data : List UInt8)
    (comStatus deviceStatus : Bool) : Bool × DeviceRuntimeState :=
  let statusChanged := s.lastComStatus != some comStatus || s.lastDeviceStatus != some deviceStatus
  if data = s.lastData ∧ statusChanged = false then
    if s.sameCount + 1 ≥ sameDataBroadcast then (true, { s with sameCount := 0 })
    else (false, { s with sameCount := s.sameCount + 1 })
  else
    (true, { s with
      sameCount := 0
      lastData := data
      lastComStatus := some comStatus
      lastDeviceStatus := some deviceStatus })

namespace SerialManager

def note (m : SerialManager) (e : Event) : SerialManager := { m with log := e :: m.log }

/-- The tail both publishing paths share: the cache always, the channel on a change. -/
def publish (m : SerialManager) (index : Nat) (data : List UInt8) (status : DeviceStatus) :
    SerialManager :=
  let m := { m with
    latestStatusCache := m.latestStatusCache.insert (status.com, status.deviceId) status
    log := .published status :: m.log }
  match m.deviceStates[index]? with
  | none => m
  | some state =>
    let (send, state) := state.shouldBroadcast data status.comStatus status.deviceStatus
    { m with
      deviceStates := m.deviceStates.set index state
      broadcasts := if send then status :: m.broadcasts else m.broadcasts }

end SerialManager

def statusOf (com : String) (dev : DeviceConfig) (comStatus deviceStatus : Bool)
    (statusBytes raw : List UInt8) : DeviceStatus where
  id := dev.config.comIndex.toUInt64
  deviceId := dev.config.deviceId
  com := com
  comStatus := comStatus
  deviceStatus := deviceStatus
  value := parseStatus statusBytes dev.records
  rawData := raw

def zeroData (dev : DeviceConfig) : List UInt8 := List.replicate dev.config.dataLen.toNat 0

def zeroStatus (com : String) (dev : DeviceConfig) (comStatus deviceStatus : Bool) : DeviceStatus :=
  statusOf com dev comStatus deviceStatus (zeroData dev) (zeroData dev)

/-- The statuses the OPC server starts from. -/
def buildConfigZeroStatuses (ports : List SerialPortConfig) : List DeviceStatus :=
  ports.flatMap fun port => port.devices.map fun dev => zeroStatus port.portNumber dev false false

namespace SerialManager

def sendZeroStatusForIndex (m : SerialManager) (index : Nat) (comStatus deviceStatus : Bool) :
    SerialManager :=
  match m.portConfig.devices[index]? with
  | none => m
  | some dev =>
    m.publish index (zeroData dev) (zeroStatus m.portConfig.portNumber dev comStatus deviceStatus)

def sendZeroStatus (m : SerialManager) (comStatus deviceStatus : Bool) : SerialManager :=
  m.sendZeroStatusForIndex m.index comStatus deviceStatus

/-- The loop shared by `publish_port_offline_once` and `publish_port_disabled`. -/
def publishAllZero (m : SerialManager) : SerialManager :=
  (List.range m.portConfig.devices.length).foldl
    (fun m index => m.sendZeroStatusForIndex index false false) m

def publishPortOfflineOnce (m : SerialManager) : SerialManager :=
  if m.portOfflinePublished then m else { m with portOfflinePublished := true }.publishAllZero

def publishPortDisabled (m : SerialManager) : SerialManager := m.publishAllZero

end SerialManager

/-! ## Connection -/

/-- How an attempt to open the port again ends; `cooling` makes none. -/
inductive Reopen where
  | cooling | opened | refused
  deriving DecidableEq

namespace SerialManager

def reconnect (m : SerialManager) (reopen : Reopen) : SerialManager :=
  if !m.portConfig.status then { m with portOpen := false, rxPending := [] }
  else
    let m := m.publishPortOfflineOnce
    match reopen with
    | .cooling => m
    | .opened => { m with portOpen := true, portOfflinePublished := false }
    | .refused => { m with portOpen := false }

/-- The reaction to a transport error, on reading as on writing. -/
def closeAndReconnect (m : SerialManager) (reopen : Reopen) : SerialManager :=
  { m with portOpen := false, rxPending := [] }.reconnect reopen

def setPortEnabled (m : SerialManager) (enabled : Bool) (reopen : Reopen) : SerialManager :=
  let m := { m with portConfig := { m.portConfig with status := enabled } }
  if !enabled then { m with portOpen := false, rxPending := [] }.publishPortDisabled
  else if !m.portOpen then m.reconnect reopen
  else m

def modifyState (m : SerialManager) (index : Nat) (f : DeviceRuntimeState → DeviceRuntimeState) :
    SerialManager :=
  { m with deviceStates := m.deviceStates.modify index f }

/-- `position` of the first device with this address. -/
def deviceIndex (m : SerialManager) (deviceId : UInt8) : Option Nat :=
  m.portConfig.devices.findIdx? fun dev => dev.config.deviceId == deviceId

def setDeviceReadEnabled (m : SerialManager) (deviceId : UInt8) (enabled : Bool) : SerialManager :=
  match m.deviceIndex deviceId with
  | none => m
  | some index =>
    let m := m.modifyState index fun s => { s with readEnabled := enabled }
    let m := m.sendZeroStatusForIndex index m.portOpen false
    if enabled then m.modifyState index fun s => { s with timeoutCount := 0, currentRound := 0 }
    else m

/-- One matching index of the `DeviceSetting` command; disabling revokes the published values. -/
def setDeviceEnabledAt (m : SerialManager) (enabled : Bool) (index : Nat) : SerialManager :=
  match m.deviceStates[index]? with
  | none => m
  | some state =>
    let m' := m.modifyState index fun s => { s with isEnabled := enabled }
    if state.isEnabled ≠ enabled ∧ enabled = false then
      m'.sendZeroStatusForIndex index m'.portOpen false
    else m'

def setDeviceEnabled (m : SerialManager) (deviceId : UInt8) (enabled : Bool) : SerialManager :=
  ((List.range m.portConfig.devices.length).filter fun index =>
      (m.portConfig.devices[index]?).any (·.config.deviceId == deviceId)).foldl
    (fun m index => m.setDeviceEnabledAt enabled index) m

def prepareWorkerRestart (m : SerialManager) : SerialManager :=
  { m with portOpen := false, rxPending := [] }.publishPortOfflineOnce

/-! ## Roles and failures -/

def switchRole (m : SerialManager) (newRole : RunLocation) : SerialManager :=
  { m with
    currentRun := newRole
    timeOutCount := 0
    parseFailCount := 0
    deviceStates := m.deviceStates.map fun s => { s with timeoutCount := 0, parseFailCount := 0 }
    log := .switched newRole :: m.log }

/-- The station at `index` is read: the gate in front of every Good publication. -/
def reads (m : SerialManager) (index : Nat) : Bool :=
  m.portConfig.status && (m.deviceStates[index]?).any fun s => s.isEnabled && s.readEnabled

/-- `handle_valid_packet`. Indexing past the station lists would panic; no state reached does. -/
def handleValidPacket (m : SerialManager) (packet : DataPacket) (frame : List UInt8) :
    SerialManager :=
  if !m.reads m.index then
    m.sendZeroStatusForIndex m.index (m.portConfig.status && m.portOpen) false
  else
    match m.portConfig.devices[m.index]? with
    | none => m
    | some dev =>
      let m := m.modifyState m.index fun s => { s with timeoutCount := 0, parseFailCount := 0 }
      let m := { m with timeOutCount := 0, parseFailCount := 0 }
      m.publish m.index packet.status
        (statusOf m.portConfig.portNumber dev true true packet.status frame)

/-- The promotion test shared by both failure paths. -/
def promoteIfSilent (m : SerialManager) : SerialManager :=
  if m.timeOutCount > portFailoverTimeout ∧ m.currentRun = .secondary ∧ m.runOn = .secondary then
    m.switchRole .primary
  else m

def countTimeOut (m : SerialManager) : SerialManager :=
  { m with timeOutCount := m.timeOutCount + 1, log := .failed :: m.log }

def handleUnattributedFrame (m : SerialManager) : SerialManager :=
  { m with parseFailCount := m.parseFailCount + 1 }.countTimeOut.promoteIfSilent

def handleDeviceFailure (m : SerialManager) (comStatus : Bool) : SerialManager :=
  let m := m.modifyState m.index fun s => { s with timeoutCount := s.timeoutCount + 1 }
  (m.countTimeOut.sendZeroStatus comStatus false).promoteIfSilent

/-- A temporary primary that cannot read its answers steps back. -/
def demoteIfUnreadable (m : SerialManager) : SerialManager :=
  if m.parseFailCount > parseFailFailover ∧ m.currentRun = .primary ∧ m.runOn = .secondary then
    m.switchRole .secondary
  else m

def handleInvalidFrame (m : SerialManager) (comStatus : Bool) : SerialManager :=
  let m := m.modifyState m.index fun s => { s with parseFailCount := s.parseFailCount + 1 }
  let m := { m with parseFailCount := m.parseFailCount + 1 }
  (m.handleDeviceFailure comStatus).demoteIfUnreadable

end SerialManager

inductive QueryFailure where
  | readTimeout
  | badFrame (reason : String) (frame : List UInt8)
  deriving DecidableEq

def SerialManager.commitQueryFailure (m : SerialManager) (failure : QueryFailure)
    (comStatus : Bool) : SerialManager :=
  match failure with
  | .readTimeout => m.handleDeviceFailure comStatus
  | .badFrame _ _ => m.handleInvalidFrame comStatus

/-! ## Frame conditions -/

/-- What the polling and failure logic reads of a station. -/
structure Gate where
  timeoutCount : UInt32
  currentRound : UInt32
  parseFailCount : UInt32
  isEnabled : Bool
  readEnabled : Bool
  deriving DecidableEq

def DeviceRuntimeState.gate (s : DeviceRuntimeState) : Gate :=
  ⟨s.timeoutCount, s.currentRound, s.parseFailCount, s.isEnabled, s.readEnabled⟩

/-- Nothing but publications of a lost device, and the state of the connection. -/
structure Withdraws (m m' : SerialManager) : Prop where
  portConfig : m'.portConfig = m.portConfig
  index : m'.index = m.index
  runOn : m'.runOn = m.runOn
  currentRun : m'.currentRun = m.currentRun
  timeOutCount : m'.timeOutCount = m.timeOutCount
  parseFailCount : m'.parseFailCount = m.parseFailCount
  gates : m'.deviceStates.map (·.gate) = m.deviceStates.map (·.gate)
  log : ∃ lost, m'.log = lost ++ m.log ∧ ∀ e ∈ lost, ∃ s, e = .published s ∧ s.good = false

theorem Withdraws.rfl {m : SerialManager} : Withdraws m m where
  portConfig := Eq.refl _
  index := Eq.refl _
  runOn := Eq.refl _
  currentRun := Eq.refl _
  timeOutCount := Eq.refl _
  parseFailCount := Eq.refl _
  gates := Eq.refl _
  log := ⟨[], Eq.refl _, by simp⟩

theorem Withdraws.trans {a b c : SerialManager} (hab : Withdraws a b) (hbc : Withdraws b c) :
    Withdraws a c where
  portConfig := hbc.portConfig.trans hab.portConfig
  index := hbc.index.trans hab.index
  runOn := hbc.runOn.trans hab.runOn
  currentRun := hbc.currentRun.trans hab.currentRun
  timeOutCount := hbc.timeOutCount.trans hab.timeOutCount
  parseFailCount := hbc.parseFailCount.trans hab.parseFailCount
  gates := hbc.gates.trans hab.gates
  log := by
    obtain ⟨first, hfirst, hlost⟩ := hab.log
    obtain ⟨second, hsecond, hlost'⟩ := hbc.log
    refine ⟨second ++ first, by rw [hsecond, hfirst, List.append_assoc], ?_⟩
    intro e he
    rcases List.mem_append.mp he with he | he
    · exact hlost' e he
    · exact hlost e he

theorem shouldBroadcast_gate (s : DeviceRuntimeState) (data : List UInt8) (c d : Bool) :
    (s.shouldBroadcast data c d).2.gate = s.gate := by
  unfold DeviceRuntimeState.shouldBroadcast
  dsimp only
  split_ifs <;> rfl

theorem map_set_eq_of_eq {α β : Type*} {f : α → β} {l : List α} {i : Nat} {a b : α}
    (hget : l[i]? = some a) (hf : f b = f a) : (l.set i b).map f = l.map f := by
  obtain ⟨hlt, rfl⟩ := List.getElem?_eq_some_iff.mp hget
  have hat : f l[i] = (l.map f).get ⟨i, by simpa using hlt⟩ := (List.getElem_map f).symm
  rw [List.map_set, hf, hat]
  exact List.set_getElem_self _

theorem publish_gates (m : SerialManager) (index : Nat) (data : List UInt8) (s : DeviceStatus) :
    (m.publish index data s).deviceStates.map (·.gate) = m.deviceStates.map (·.gate) := by
  unfold SerialManager.publish
  dsimp only
  split
  · rfl
  · rename_i state hstate
    exact map_set_eq_of_eq hstate (shouldBroadcast_gate state data _ _)

/-- A publication touches the cache, the channel and what the station last sent. -/
theorem publish_frame (m : SerialManager) (index : Nat) (data : List UInt8) (s : DeviceStatus) :
    (m.publish index data s).portConfig = m.portConfig ∧
      (m.publish index data s).index = m.index ∧
      (m.publish index data s).runOn = m.runOn ∧
      (m.publish index data s).currentRun = m.currentRun ∧
      (m.publish index data s).timeOutCount = m.timeOutCount ∧
      (m.publish index data s).parseFailCount = m.parseFailCount ∧
      (m.publish index data s).log = .published s :: m.log := by
  unfold SerialManager.publish
  dsimp only
  split <;> exact ⟨rfl, rfl, rfl, rfl, rfl, rfl, rfl⟩

theorem sendZero_withdraws (m : SerialManager) (index : Nat) (comStatus : Bool) :
    Withdraws m (m.sendZeroStatusForIndex index comStatus false) := by
  unfold SerialManager.sendZeroStatusForIndex
  split
  · exact Withdraws.rfl
  · rename_i dev _
    obtain ⟨hport, hindex, hrun, hcur, htime, hparse, hlog⟩ :=
      publish_frame m index (zeroData dev) (zeroStatus m.portConfig.portNumber dev comStatus false)
    exact
      { portConfig := hport
        index := hindex
        runOn := hrun
        currentRun := hcur
        timeOutCount := htime
        parseFailCount := hparse
        gates := publish_gates m index _ _
        log := ⟨[_], hlog, by simp [DeviceStatus.good, zeroStatus, statusOf]⟩ }

theorem publishAllZero_withdraws (m : SerialManager) : Withdraws m m.publishAllZero := by
  unfold SerialManager.publishAllZero
  generalize List.range m.portConfig.devices.length = indexes
  induction indexes generalizing m with
  | nil => exact Withdraws.rfl
  | cons i rest ih => exact (sendZero_withdraws m i false).trans (ih _)

/-- The connection fields are no part of the frame condition. -/
theorem withdraws_connection (m : SerialManager) (isOpen offline : Bool) (pending : List UInt8) :
    Withdraws m
      { m with portOpen := isOpen, portOfflinePublished := offline, rxPending := pending } :=
  { Withdraws.rfl (m := m) with }

theorem publishPortOfflineOnce_withdraws (m : SerialManager) :
    Withdraws m m.publishPortOfflineOnce := by
  unfold SerialManager.publishPortOfflineOnce
  split
  · exact Withdraws.rfl
  · exact (withdraws_connection m m.portOpen true m.rxPending).trans (publishAllZero_withdraws _)

theorem reconnect_withdraws (m : SerialManager) (reopen : Reopen) :
    Withdraws m (m.reconnect reopen) := by
  unfold SerialManager.reconnect
  split
  · exact withdraws_connection m false m.portOfflinePublished []
  · have hoffline := publishPortOfflineOnce_withdraws m
    cases reopen with
    | cooling => exact hoffline
    | opened => exact hoffline.trans (withdraws_connection _ true false _)
    | refused => exact hoffline.trans (withdraws_connection _ false _ _)

theorem closeAndReconnect_withdraws (m : SerialManager) (reopen : Reopen) :
    Withdraws m (m.closeAndReconnect reopen) :=
  (withdraws_connection m false m.portOfflinePublished []).trans (reconnect_withdraws _ reopen)

theorem reads_eq_of_gates {m m' : SerialManager} (hport : m'.portConfig.status = m.portConfig.status)
    (hgates : m'.deviceStates.map (fun s => (s.isEnabled, s.readEnabled)) =
      m.deviceStates.map fun s => (s.isEnabled, s.readEnabled)) (i : Nat) :
    m'.reads i = m.reads i := by
  have hgate := congrArg (·[i]?) hgates
  simp only [List.getElem?_map] at hgate
  have hany : (m'.deviceStates[i]?).any (fun s => s.isEnabled && s.readEnabled) =
      (m.deviceStates[i]?).any fun s => s.isEnabled && s.readEnabled := by
    cases ha : m'.deviceStates[i]? <;> cases hb : m.deviceStates[i]? <;> simp_all
  rw [SerialManager.reads, SerialManager.reads, hport, hany]

/-- An open port with the one station of the small table. -/
def sampleManager (runOn currentRun : RunLocation) : SerialManager where
  portOpen := true
  portConfig := ⟨"COM1", [sampleDevice], true⟩
  deviceStates := [{}]
  latestStatusCache := ∅
  broadcasts := []
  index := 0
  runOn := runOn
  currentRun := currentRun
  timeOutCount := 0
  parseFailCount := 0
  rxPending := []
  portOfflinePublished := false
  log := []

theorem sampleManager_validated (runOn currentRun : RunLocation) :
    ∀ dev ∈ (sampleManager runOn currentRun).portConfig.devices, dev.Validated := by
  intro dev hdev
  obtain rfl : dev = sampleDevice := by simpa [sampleManager] using hdev
  exact sampleDevice_validated

end RcdServer.Serial
