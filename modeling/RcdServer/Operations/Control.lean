import Mathlib.Algebra.Group.Nat.Defs
import RcdServer.Lib.Run

/-!
# Port controls between the operations state and the serial worker

`set_control`, `set_device_module_type` and `query_device_version` reserve a port
by writing a revision number into `pending` and hand a command with the same number
to the worker. The worker asks `control_is_current` by number, applies the command
and lets `complete_control` clear the reservation by number. Acquisition controls
draw from `saved.revision`, station controls from `station_saved.revision`.

The state below is the operations state as far as one port is concerned, its channel
and its worker. Each request gets an identity of its own, which the code does not
have; `owner` is the request that wrote the reservation in `pending`.
-/
namespace RcdServer.Operations

inductive ModuleType where
  | unknown | domestic | legacyRussian
  deriving DecidableEq

structure OperationError where
  code : String
  message : String
  deriving DecidableEq

structure Device where
  deviceId : String
  readEnabled : Bool
  appliedReadEnabled : Bool
  configuredModuleType : ModuleType
  deriving DecidableEq

structure Port where
  enabled : Bool
  appliedEnabled : Bool
  isOpen : Bool
  controlPending : Bool
  lastControlError : Option String
  pendingCommands : Nat
  devices : List Device
  deriving DecidableEq

inductive CommandType where
  | portStatus (deviceStatus : Bool)
  | deviceReadSetting (deviceId : Nat) (readEnabled : Bool)
  | stationModuleTypeSetting (deviceId : Nat) (moduleType : ModuleType)
  | queryStationVersion (deviceId : Nat)
  deriving DecidableEq

/-- A control in the port's channel: the revision of its receipt, and who asked for it. -/
structure Command where
  command : CommandType
  revision : Nat
  request : Nat
  deriving DecidableEq

inductive Worker where
  | idle
  | current (c : Command)
  | finished (c : Command) (outcome : Except String Unit)
  deriving DecidableEq

structure Sys where
  shutdown : Bool
  saved : Nat
  stationSaved : Nat
  port : Port
  pending : Option Nat
  owner : Option Nat
  requests : Nat
  channel : List Command
  closed : Bool
  worker : Worker
  applied : List Nat
  replies : List (Nat × Except String Unit)
  deriving DecidableEq

/-- The gateway with its settings loaded and no control requested yet. -/
def Sys.initial (saved stationSaved : Nat) (port : Port) : Sys :=
  { shutdown := false
    saved := saved
    stationSaved := stationSaved
    port := port
    pending := none
    owner := none
    requests := 0
    channel := []
    closed := false
    worker := .idle
    applied := []
    replies := [] }

/-! ## Requests -/

/-- `str::parse::<u8>`. -/
def parseU8 (text : String) : Option Nat :=
  let digits := match text.toList with
    | '+' :: rest => rest
    | chars => chars
  if digits.isEmpty || !digits.all Char.isDigit then none
  else
    let n := digits.foldl (fun n c => 10 * n + (c.toNat - '0'.toNat)) 0
    if n < 256 then some n else none

def shuttingDown : OperationError := ⟨"operation_failed", "gateway is shutting down"⟩
def revisionChanged : OperationError := ⟨"conflict", "operations revision changed"⟩
def stationRevisionChanged : OperationError := ⟨"conflict", "station version revision changed"⟩
def busy : OperationError := ⟨"busy", "port has a pending command or control operation"⟩
def unknownDevice : OperationError := ⟨"not_found", "unknown device"⟩
def invalidDevice : OperationError := ⟨"invalid_request", "invalid device ID"⟩
def exhausted : OperationError := ⟨"operation_failed", "revision exhausted"⟩

/-- `checked_add(1)` on a `u64`. -/
def incrementRevision (current : Nat) : Except OperationError Nat :=
  if current + 1 < 2 ^ 64 then .ok (current + 1) else .error exhausted

/-- The end of all three requests: reserve the port, hand the command over, and take the
reservation back when the worker's end of the channel is gone. -/
def Sys.reserve (s : Sys) (revision : Nat) (command : CommandType) (unsaid : String)
    (refused : OperationError) : Sys × Except OperationError (Option Nat) :=
  let request := s.requests
  let port := { s.port with controlPending := true, lastControlError := none }
  if s.closed then
    let port := { port with controlPending := false, lastControlError := some unsaid }
    ({ s with port := port, pending := none, owner := none, requests := request + 1 }, .error refused)
  else
    ({ s with
      port := port
      pending := some revision
      owner := some request
      requests := request + 1
      channel := s.channel ++ [⟨command, revision, request⟩] }, .ok (some revision))

def controlCommand (port : Port) (device : Option String) (enabled : Bool) :
    Except OperationError CommandType :=
  match device with
  | none => .ok (.portStatus enabled)
  | some id =>
    if !port.devices.any (·.deviceId == id) then .error unknownDevice
    else
      match parseU8 id with
      | none => .error invalidDevice
      | some n => .ok (.deviceReadSetting n enabled)

/-- The desired setting as the status shows it. -/
def desire (port : Port) (device : Option String) (enabled : Bool) : Port :=
  match device with
  | none => { port with enabled := enabled }
  | some id =>
    { port with
      devices := port.devices.map fun d =>
        if d.deviceId == id then { d with readEnabled := enabled } else d }

def Sys.setControl (s : Sys) (device : Option String) (enabled : Bool) (expected : String)
    (persist : Except String Unit) : Sys × Except OperationError (Option Nat) :=
  if s.shutdown then (s, .error shuttingDown)
  else if expected ≠ toString s.saved then (s, .error revisionChanged)
  else if s.port.controlPending || s.port.pendingCommands != 0 then (s, .error busy)
  else
    match controlCommand s.port device enabled, incrementRevision s.saved with
    | .error e, _ => (s, .error e)
    | _, .error e => (s, .error e)
    | .ok command, .ok revision =>
      match persist with
      | .error e =>
        (s, .error ⟨"persistence_failed", "could not save acquisition settings: " ++ e⟩)
      | .ok () =>
        { s with saved := revision, port := desire s.port device enabled }.reserve revision command
          "worker channel closed; desired setting is saved but not applied"
          ⟨"operation_failed",
            "desired setting saved, worker unavailable; refresh status before further action"⟩

def validateStationRequest (s : Sys) (expected expectedStation deviceId : String) (query : Bool) :
    Except OperationError Device :=
  if expected ≠ toString s.saved then .error revisionChanged
  else if expectedStation ≠ toString s.stationSaved then .error stationRevisionChanged
  else if s.port.controlPending || s.port.pendingCommands != 0 then .error busy
  else
    match s.port.devices.find? (·.deviceId == deviceId) with
    | none => .error unknownDevice
    | some device =>
      if !query then .ok device
      else if device.configuredModuleType ≠ .domestic then
        .error ⟨"conflict", "version query is allowed only for a station configured as domestic"⟩
      else if !s.port.enabled || !s.port.appliedEnabled then
        .error ⟨"conflict", "port acquisition is disabled or not yet applied"⟩
      else if !s.port.isOpen then .error ⟨"operation_failed", "serial port is offline"⟩
      else if !device.readEnabled || !device.appliedReadEnabled then
        .error ⟨"conflict", "device acquisition is disabled or not yet applied"⟩
      else .ok device

/-- A request for the type the station already has is answered `Unchanged`, without a revision. -/
def Sys.setDeviceModuleType (s : Sys) (deviceId : String) (moduleType : ModuleType)
    (expected expectedStation : String) (persist : Except String Unit) :
    Sys × Except OperationError (Option Nat) :=
  match parseU8 deviceId with
  | none => (s, .error invalidDevice)
  | some id =>
    if s.shutdown then (s, .error shuttingDown)
    else
      match validateStationRequest s expected expectedStation deviceId false with
      | .error e => (s, .error e)
      | .ok device =>
        if device.configuredModuleType = moduleType then (s, .ok none)
        else
          match incrementRevision s.stationSaved, persist with
          | .error e, _ => (s, .error e)
          | _, .error e =>
            (s, .error ⟨"persistence_failed", "could not save station version settings: " ++ e⟩)
          | .ok revision, .ok () =>
            let devices := s.port.devices.map fun d =>
              if d.deviceId == deviceId then { d with configuredModuleType := moduleType } else d
            { s with stationSaved := revision, port := { s.port with devices := devices } }.reserve
              revision (.stationModuleTypeSetting id moduleType)
              "worker channel closed; module type is saved and will apply on restart"
              ⟨"operation_failed", "module type saved, but serial worker is unavailable"⟩

/-- When the channel is closed the failed result is recorded under a further station revision,
which is a `stationBump` below. -/
def Sys.queryDeviceVersion (s : Sys) (deviceId : String) (expected expectedStation : String)
    (persist : Except String Unit) : Sys × Except OperationError (Option Nat) :=
  match parseU8 deviceId with
  | none => (s, .error invalidDevice)
  | some id =>
    if s.shutdown then (s, .error shuttingDown)
    else
      match validateStationRequest s expected expectedStation deviceId true with
      | .error e => (s, .error e)
      | .ok _ =>
        match incrementRevision s.stationSaved, persist with
        | .error e, _ => (s, .error e)
        | _, .error e =>
          (s, .error ⟨"persistence_failed", "could not save station query state: " ++ e⟩)
        | .ok revision, .ok () =>
          { s with stationSaved := revision }.reserve revision (.queryStationVersion id)
            "serial worker channel closed" ⟨"operation_failed", "serial worker is unavailable"⟩

/-! ## The worker -/

/-- `state.pending.remove(port_id)`, with the flag and the error it leaves behind. -/
def Sys.release (s : Sys) (error : Option String) : Sys :=
  { s with
    pending := none
    owner := none
    port := { s.port with controlPending := false, lastControlError := error } }

def Sys.completeControl (s : Sys) (revision : Nat) (outcome : Except String Unit) : Sys :=
  if s.pending = some revision then
    s.release (match outcome with | .ok () => none | .error e => some e)
  else s

def superseded : String := "control request was superseded or invalidated; refresh status"
def shutDownBefore : String := "serial worker shut down before applying control"

def Sys.reply (s : Sys) (c : Command) (outcome : Except String Unit) : Sys :=
  { s with replies := s.replies ++ [(c.request, outcome)] }

/-- The next control of the channel: current by number, or superseded. -/
def Sys.receive (s : Sys) : Option Sys :=
  match s.worker, s.channel with
  | .idle, c :: rest =>
    let s := { s with channel := rest }
    if s.pending = some c.revision then some { s with worker := .current c }
    else some (s.reply c (.error superseded))
  | _, _ => none

def Sys.apply (s : Sys) (outcome : Except String Unit) : Option Sys :=
  match s.worker with
  | .current c => some { s with worker := .finished c outcome, applied := s.applied ++ [c.request] }
  | _ => none

def Sys.complete (s : Sys) : Option Sys :=
  match s.worker with
  | .finished c outcome =>
    some (({ s with worker := .idle }.completeControl c.revision outcome).reply c outcome)
  | _ => none

/-- One turn of `reject_incoming_commands`. -/
def Sys.drain (s : Sys) : Option Sys :=
  match s.worker, s.channel with
  | .idle, c :: rest =>
    let outcome := .error shutDownBefore
    some (({ s with channel := rest }.completeControl c.revision outcome).reply c outcome)
  | _, _ => none

inductive Action where
  | setControl (device : Option String) (enabled : Bool) (expected : String)
      (persist : Except String Unit)
  | setDeviceModuleType (deviceId : String) (moduleType : ModuleType)
      (expected expectedStation : String) (persist : Except String Unit)
  | queryDeviceVersion (deviceId expected expectedStation : String) (persist : Except String Unit)
  | savedBump
  | stationBump
  | permit
  | release
  | report (enabled isOpen : Bool) (reading : String → Bool)
  | cancel
  | receive
  | apply (outcome : Except String Unit)
  | complete
  | panic
  | drain
  | stop

/-- The first three are the requests; the two bumps are what other ports, automatic version
queries and query results do to the counters. -/
def step (s : Sys) : Action → Option Sys
  | .setControl device enabled expected persist => some (s.setControl device enabled expected persist).1
  | .setDeviceModuleType id type expected station persist =>
    some (s.setDeviceModuleType id type expected station persist).1
  | .queryDeviceVersion id expected station persist =>
    some (s.queryDeviceVersion id expected station persist).1
  | .savedBump => if s.saved + 1 < 2 ^ 64 then some { s with saved := s.saved + 1 } else none
  | .stationBump =>
    if s.stationSaved + 1 < 2 ^ 64 then some { s with stationSaved := s.stationSaved + 1 } else none
  | .permit =>
    if s.port.controlPending || s.port.pendingCommands != 0 then none
    else some { s with port := { s.port with pendingCommands := 1 } }
  | .release => some { s with port := { s.port with pendingCommands := s.port.pendingCommands - 1 } }
  | .report enabled isOpen reading =>
    let devices := s.port.devices.map fun d => { d with appliedReadEnabled := reading d.deviceId }
    some { s with
      port := { s.port with appliedEnabled := enabled, isOpen := isOpen, devices := devices } }
  | .cancel => some { s with shutdown := true }
  | .receive => s.receive
  | .apply outcome => s.apply outcome
  | .complete => s.complete
  | .panic =>
    some ({ s with worker := .idle }.release (some "serial worker panicked before confirmation"))
  | .drain => s.drain
  | .stop =>
    some ({ s with worker := .idle, channel := [], closed := true }.release (some "serial worker stopped"))

/-! ## What a step does -/

/-- A request that is turned down changes nothing; one whose command cannot be handed over leaves
no reservation; any other reserves a free port and queues its command. -/
inductive RequestStep (s : Sys) : Sys → Prop where
  | unchanged : RequestStep s s
  | refused {s' : Sys} (hfree : s.port.controlPending = false) (hpending : s'.pending = none)
      (hchannel : s'.channel = s.channel) (hworker : s'.worker = s.worker)
      (happlied : s'.applied = s.applied) : RequestStep s s'
  | reserved {s' : Sys} (c : Command) (hfree : s.port.controlPending = false)
      (hpending : s'.pending = some c.revision) (howner : s'.owner = some c.request)
      (hflag : s'.port.controlPending = true) (hchannel : s'.channel = s.channel ++ [c])
      (hworker : s'.worker = s.worker) (happlied : s'.applied = s.applied) : RequestStep s s'

theorem reserve_request {s base : Sys} (hfree : s.port.controlPending = false)
    (hchannel : base.channel = s.channel) (hworker : base.worker = s.worker)
    (happlied : base.applied = s.applied) (revision : Nat) (command : CommandType) (unsaid : String)
    (refused : OperationError) : RequestStep s (base.reserve revision command unsaid refused).1 := by
  simp only [Sys.reserve]
  split
  · exact .refused hfree rfl hchannel hworker happlied
  · exact .reserved ⟨command, revision, base.requests⟩ hfree rfl rfl rfl (by rw [hchannel]) hworker happlied

theorem setControl_request (s : Sys) (device : Option String) (enabled : Bool) (expected : String)
    (persist : Except String Unit) : RequestStep s (s.setControl device enabled expected persist).1 := by
  unfold Sys.setControl
  split
  · exact .unchanged
  · split
    · exact .unchanged
    · split
      · exact .unchanged
      · rename_i hbusy
        have hfree : s.port.controlPending = false := by simp at hbusy; exact hbusy.1
        split
        · exact .unchanged
        · exact .unchanged
        · split
          · exact .unchanged
          · apply reserve_request hfree <;> rfl

theorem validateStationRequest_free {s : Sys} {expected station id : String} {query : Bool}
    {device : Device} (h : validateStationRequest s expected station id query = .ok device) :
    s.port.controlPending = false := by
  unfold validateStationRequest at h
  split at h
  · cases h
  · split at h
    · cases h
    · split at h
      · cases h
      · rename_i hbusy
        simp at hbusy
        exact hbusy.1

theorem setDeviceModuleType_request (s : Sys) (id : String) (type : ModuleType)
    (expected station : String) (persist : Except String Unit) :
    RequestStep s (s.setDeviceModuleType id type expected station persist).1 := by
  unfold Sys.setDeviceModuleType
  split
  · exact .unchanged
  · split
    · exact .unchanged
    · split
      · exact .unchanged
      · rename_i hvalid
        split
        · exact .unchanged
        · split
          · exact .unchanged
          · exact .unchanged
          · apply reserve_request (validateStationRequest_free hvalid) <;> rfl

theorem queryDeviceVersion_request (s : Sys) (id expected station : String)
    (persist : Except String Unit) :
    RequestStep s (s.queryDeviceVersion id expected station persist).1 := by
  unfold Sys.queryDeviceVersion
  split
  · exact .unchanged
  · split
    · exact .unchanged
    · split
      · exact .unchanged
      · rename_i hvalid
        split
        · exact .unchanged
        · exact .unchanged
        · apply reserve_request (validateStationRequest_free hvalid) <;> rfl

/-- Everything a step can do to the reservation, the channel and the worker. -/
inductive Effect (s : Sys) : Action → Sys → Prop where
  | request {a : Action} {s' : Sys} (ha : a ≠ .receive ∧ a ≠ .complete ∧ a ≠ .drain)
      (h : RequestStep s s') : Effect s a s'
  | quiet {a : Action} {s' : Sys} (ha : a ≠ .receive ∧ a ≠ .complete ∧ a ≠ .drain)
      (hpending : s'.pending = s.pending) (howner : s'.owner = s.owner)
      (hflag : s'.port.controlPending = s.port.controlPending) (hchannel : s'.channel = s.channel)
      (hworker : s'.worker = s.worker) (happlied : s'.applied = s.applied) : Effect s a s'
  | lost {a : Action} {s' : Sys} (ha : a ≠ .receive ∧ a ≠ .complete ∧ a ≠ .drain)
      (hpending : s'.pending = none) (hworker : s'.worker = .idle)
      (happlied : s'.applied = s.applied) : Effect s a s'
  | take (c : Command) (rest : List Command) (hw : s.worker = .idle) (hch : s.channel = c :: rest)
      (hcurrent : s.pending = some c.revision) :
      Effect s .receive { s with channel := rest, worker := .current c }
  | supersede (c : Command) (rest : List Command) (hw : s.worker = .idle)
      (hch : s.channel = c :: rest) (hcurrent : s.pending ≠ some c.revision) :
      Effect s .receive ({ s with channel := rest }.reply c (.error superseded))
  | apply (c : Command) (outcome : Except String Unit) (hw : s.worker = .current c) :
      Effect s (.apply outcome)
        { s with worker := .finished c outcome, applied := s.applied ++ [c.request] }
  | complete (c : Command) (outcome : Except String Unit) (hw : s.worker = .finished c outcome) :
      Effect s .complete (({ s with worker := .idle }.completeControl c.revision outcome).reply c outcome)
  | drain (c : Command) (rest : List Command) (hw : s.worker = .idle) (hch : s.channel = c :: rest) :
      Effect s .drain
        (({ s with channel := rest }.completeControl c.revision (.error shutDownBefore)).reply c
          (.error shutDownBefore))

theorem step_effect {s s' : Sys} {a : Action} (hstep : step s a = some s') : Effect s a s' := by
  cases a with
  | setControl device enabled expected persist =>
    obtain rfl := Option.some.inj hstep
    exact .request (by simp) (setControl_request ..)
  | setDeviceModuleType id type expected station persist =>
    obtain rfl := Option.some.inj hstep
    exact .request (by simp) (setDeviceModuleType_request ..)
  | queryDeviceVersion id expected station persist =>
    obtain rfl := Option.some.inj hstep
    exact .request (by simp) (queryDeviceVersion_request ..)
  | savedBump | stationBump =>
    simp only [step] at hstep
    split at hstep
    · obtain rfl := Option.some.inj hstep
      exact .quiet (by simp) rfl rfl rfl rfl rfl rfl
    · cases hstep
  | permit =>
    simp only [step] at hstep
    split at hstep
    · cases hstep
    · obtain rfl := Option.some.inj hstep
      exact .quiet (by simp) rfl rfl rfl rfl rfl rfl
  | release | report | cancel =>
    obtain rfl := Option.some.inj hstep
    exact .quiet (by simp) rfl rfl rfl rfl rfl rfl
  | panic | stop =>
    obtain rfl := Option.some.inj hstep
    exact .lost (by simp) rfl rfl rfl
  | receive =>
    simp only [step, Sys.receive] at hstep
    split at hstep
    · rename_i c rest hw hch
      split at hstep
      · rename_i hcurrent
        obtain rfl := Option.some.inj hstep
        exact .take c rest hw hch hcurrent
      · rename_i hcurrent
        obtain rfl := Option.some.inj hstep
        exact .supersede c rest hw hch hcurrent
    · cases hstep
  | apply outcome =>
    simp only [step, Sys.apply] at hstep
    split at hstep
    · rename_i c hw
      obtain rfl := Option.some.inj hstep
      exact .apply c outcome hw
    · cases hstep
  | complete =>
    simp only [step, Sys.complete] at hstep
    split at hstep
    · rename_i c outcome hw
      obtain rfl := Option.some.inj hstep
      exact .complete c outcome hw
    · cases hstep
  | drain =>
    simp only [step, Sys.drain] at hstep
    split at hstep
    · rename_i c rest hw hch
      obtain rfl := Option.some.inj hstep
      exact .drain c rest hw hch
    · cases hstep

theorem completeControl_cases (s : Sys) (revision : Nat) (outcome : Except String Unit) :
    (s.pending = some revision ∧ (s.completeControl revision outcome).pending = none) ∨
      s.completeControl revision outcome = s := by
  unfold Sys.completeControl
  split
  · rename_i hp
    exact .inl ⟨hp, rfl⟩
  · exact .inr rfl

theorem completeControl_keeps (s : Sys) (revision : Nat) (outcome : Except String Unit) :
    (s.completeControl revision outcome).channel = s.channel ∧
      (s.completeControl revision outcome).worker = s.worker ∧
      (s.completeControl revision outcome).applied = s.applied := by
  unfold Sys.completeControl
  split <;> exact ⟨rfl, rfl, rfl⟩

/-! ## Ownership -/

/-- The control the worker has taken out of the channel. -/
def Worker.command : Worker → List Command
  | .idle => []
  | .current c | .finished c _ => [c]

/-- Controls that are still to be processed or completed. -/
def Sys.live (s : Sys) : List Command := s.worker.command ++ s.channel

/-- A live control with the reserved number made the reservation; a reserved port takes no further
request; and the worker holds a control for current only under its reservation. -/
structure Owned (s : Sys) : Prop where
  owner : ∀ c ∈ s.live, s.pending = some c.revision → s.owner = some c.request
  flagged : s.pending ≠ none → s.port.controlPending = true
  held : ∀ c, s.worker = .current c → s.pending = some c.revision

/-- A worker that holds nothing and a port that is not reserved. -/
theorem Owned.released {s : Sys} (hp : s.pending = none) (hw : ∀ c, s.worker ≠ .current c) :
    Owned s where
  owner c _ hc := by
    rw [hp] at hc
    cases hc
  flagged hn := absurd hp hn
  held c hc := absurd hc (hw c)

/-- A control leaves the channel or the worker while the reservation stays. -/
theorem Owned.shrink {s s' : Sys} (h : Owned s) (hlive : ∀ c ∈ s'.live, c ∈ s.live)
    (hpending : s'.pending = s.pending) (howner : s'.owner = s.owner)
    (hflag : s'.port.controlPending = s.port.controlPending)
    (hheld : ∀ c, s'.worker = .current c → s.pending = some c.revision) : Owned s' where
  owner c hc hp := howner.trans (h.owner c (hlive c hc) (hpending ▸ hp))
  flagged hn := hflag.trans (h.flagged (hpending ▸ hn))
  held c hc := hpending.trans (hheld c hc)

theorem Owned.free {s : Sys} (h : Owned s) (hfree : s.port.controlPending = false) :
    s.pending = none := by
  by_contra hn
  have := h.flagged hn
  rw [hfree] at this
  cases this

theorem Owned.request {s s' : Sys} (h : Owned s) (hr : RequestStep s s')
    (hfresh : ∀ c, s'.channel = s.channel ++ [c] → c.revision ∉ s.live.map Command.revision) :
    Owned s' := by
  -- an unreserved port has no control that the worker holds for current
  have hidle : s.port.controlPending = false → ∀ c, s.worker ≠ .current c := by
    intro hfree c hc
    have hp := h.held c hc
    rw [h.free hfree] at hp
    cases hp
  cases hr with
  | unchanged => exact h
  | refused hfree hpending hchannel hworker =>
    exact .released hpending (hworker ▸ hidle hfree)
  | reserved c hfree hpending howner hflag hchannel hworker =>
    refine ⟨?_, fun _ => hflag, fun d hd => absurd (hworker ▸ hd) (hidle hfree d)⟩
    intro d hd hp
    have hnum : c.revision = d.revision := Option.some.inj (hpending.symm.trans hp)
    rw [Sys.live, hworker, hchannel, ← List.append_assoc, List.mem_append] at hd
    rcases hd with hd | hd
    · have hmem : d.revision ∈ s.live.map Command.revision := List.mem_map_of_mem hd
      rw [← hnum] at hmem
      exact absurd hmem (hfresh c hchannel)
    · rw [List.mem_singleton.mp hd]
      exact howner

/-- `complete_control` for a control the worker is done with. -/
theorem Owned.complete {s : Sys} (h : Owned s) (hw : ∀ c, s.worker ≠ .current c) (revision : Nat)
    (outcome : Except String Unit) (c : Command) :
    Owned ((s.completeControl revision outcome).reply c outcome) := by
  have hkeeps := completeControl_keeps s revision outcome
  rcases completeControl_cases s revision outcome with ⟨-, hnone⟩ | hsame
  · refine .released hnone fun d hd => hw d ?_
    rw [← hkeeps.2.1]
    exact hd
  · rw [hsame]
    exact h.shrink (fun _ hc => hc) rfl rfl rfl fun d hd => absurd hd (hw d)

/-- The worker applies, supersedes and completes by owner, not by number. -/
structure Proper (s : Sys) (a : Action) (s' : Sys) : Prop where
  applies : ∀ request, s'.applied = s.applied ++ [request] → s.owner = some request
  supersedes : ∀ c rest, a = .receive → s.channel = c :: rest → s.owner ≠ some c.request →
    s'.worker = .idle ∧ s'.replies = s.replies ++ [(c.request, .error superseded)]
  completes : ∀ c, (a = .complete ∧ ∃ outcome, s.worker = .finished c outcome) ∨
      (a = .drain ∧ ∃ rest, s.channel = c :: rest) →
    s'.pending ≠ s.pending → s.owner = some c.request

/-- A step of neither kind is proper if it applies nothing. -/
theorem Proper.other {s s' : Sys} {a : Action} (ha : a ≠ .receive ∧ a ≠ .complete ∧ a ≠ .drain)
    (happlied : s'.applied = s.applied) : Proper s a s' where
  applies request hr := by
    rw [happlied] at hr
    simp at hr
  supersedes c rest hrec := absurd hrec ha.1
  completes c hc := by
    rcases hc with ⟨hc, -⟩ | ⟨hc, -⟩
    · exact absurd hc ha.2.1
    · exact absurd hc ha.2.2

open Lib.Run

def samplePort : Port :=
  { enabled := true, appliedEnabled := true, isOpen := true, controlPending := false
    lastControlError := none, pendingCommands := 0
    devices := [⟨"1", true, true, .unknown⟩] }

end RcdServer.Operations
