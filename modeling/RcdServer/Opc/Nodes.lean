import RcdServer.Calc.Rust.Engine
import RcdServer.Lib.Run
import RcdServer.Serial.Manager

/-!
# The value nodes of the OPC server

A serial worker puts the status of a device into the latest-status cache and then broadcasts it,
unless `should_broadcast` holds it back. The update task starts from the cache, applies what it
receives one status at a time, and resynchronises from the cache when the channel has overrun it.

A step is one access to something shared: the cache, the channel or the task's place in it. A
device stands for its key `(com, device_id)`. A status has the compared bytes and the two flags;
its values are what `parse_status` reads from those bytes, and the raw frame reaches no node.
-/
namespace RcdServer.Opc.Nodes

open Calc Calc.Rust
open Protocol (Value)
open Serial (DeviceRuntimeState)

variable {ι F64 F32 : Type}

/-! ## Values -/

inductive Variant (F32 F64 : Type) where
  | empty
  | uint32 (n : UInt32)
  | boolean (b : Bool)
  | float (x : F32)
  | double (x : F64)
  deriving DecidableEq

inductive StatusCode where
  | good
  | badNoCommunication
  | badWaitingForInitialData
  deriving DecidableEq

structure DataValue (F32 F64 : Type) where
  value : Variant F32 F64
  status : StatusCode
  deriving DecidableEq

def valueToVariant : Value F32 F64 → Variant F32 F64
  | .uint n => .uint32 n
  | .bool b => .boolean b
  | .float x => .float x
  | .double x => .double x

def zeroVariantForValue [FloatOps F64 F32] : Value F32 F64 → Variant F32 F64
  | .uint _ => .uint32 0
  | .bool _ => .boolean false
  | .float _ => .float (FloatOps.narrow (FloatOps.zero : F64))
  | .double _ => .double FloatOps.zero

/-! ## Devices -/

structure DeviceStatus (ι : Type) where
  device : ι
  comStatus : Bool
  deviceStatus : Bool
  data : List UInt8
  deriving DecidableEq

def DeviceStatus.valid (st : DeviceStatus ι) : Bool := st.comStatus && st.deviceStatus

/-- The configuration, as `validate_opcua_kks_namespace` has accepted it. `devices` is in the order
of the configuration and `keyOrder` in that of the keys, which is how the cache lists them.
`parseStatus d` is `parse_status` with the records of the device. -/
structure Site (ι F64 F32 : Type) where
  devices : List ι
  keyOrder : List ι
  dataLen : ι → Nat
  parseStatus : ι → List UInt8 → String → Option (Value F32 F64)
  keys : ι → List String
  engine : CalcEngine F64
  hasNode : String → Bool
  capacity : Nat
  nodup : devices.Nodup
  complete : ∀ d, d ∈ devices
  ordered : keyOrder.Perm devices
  parse_isSome : ∀ d data kks, (parseStatus d data kks).isSome = true ↔ kks ∈ keys d
  disjoint : ∀ d e kks, kks ∈ keys d → kks ∈ keys e → d = e
  outputs : ∀ d kks, kks ∈ keys d → kks ∉ engine.outputNames

def Site.value (site : Site ι F64 F32) (st : DeviceStatus ι) (kks : String) :
    Option (Value F32 F64) :=
  site.parseStatus st.device st.data kks

/-- One entry of `build_config_zero_statuses`. -/
def Site.zeroStatus (site : Site ι F64 F32) (d : ι) : DeviceStatus ι :=
  ⟨d, false, false, List.replicate (site.dataLen d) 0⟩

/-! ## The calculation context -/

structure CalcRunner (F64 : Type) where
  globalVars : Variables F64
  validVars : Validity

def CalcRunner.new : CalcRunner F64 := ⟨fun _ => none, fun _ => none⟩

section

variable [FloatOps F64 F32]

/-- The values of one status over those of earlier ones. -/
def CalcRunner.accumulate (site : Site ι F64 F32) (r : CalcRunner F64) (st : DeviceStatus ι) :
    CalcRunner F64 where
  globalVars kks :=
    match site.value st kks with
    | some v => some (fromModelValue v)
    | none => r.globalVars kks
  validVars kks := if (site.value st kks).isSome then some st.valid else r.validVars kks

def CalcRunner.runWithQuality (site : Site ι F64 F32) (r : CalcRunner F64) :
    List (String × Value F32 F64 × Bool) :=
  site.engine.runCycleWithQuality r.globalVars r.validVars

def CalcRunner.rebuildFromStatusesWithQuality (site : Site ι F64 F32)
    (statuses : List (DeviceStatus ι)) : CalcRunner F64 × List (String × Value F32 F64 × Bool) :=
  if site.engine.rules.isEmpty then (.new, [])
  else
    let r := statuses.foldl (CalcRunner.accumulate site) .new
    (r, r.runWithQuality site)

def CalcRunner.onUpdateWithQuality (site : Site ι F64 F32) (r : CalcRunner F64)
    (st : DeviceStatus ι) : CalcRunner F64 × List (String × Value F32 F64 × Bool) :=
  if site.engine.rules.isEmpty then (r, [])
  else
    let r := r.accumulate site st
    (r, r.runWithQuality site)

/-! ## Updates of nodes -/

def pointUpdate (st : DeviceStatus ι) (unavailable : StatusCode) (v : Value F32 F64) :
    DataValue F32 F64 :=
  if st.valid then ⟨valueToVariant v, .good⟩
  else if unavailable = .badNoCommunication then ⟨zeroVariantForValue v, unavailable⟩
  else ⟨.empty, unavailable⟩

def collectDeviceUpdates (site : Site ι F64 F32) (st : DeviceStatus ι) (unavailable : StatusCode) :
    List (String × DataValue F32 F64) :=
  (site.keys st.device).filterMap fun kks =>
    if site.hasNode kks then
      (site.value st kks).map fun v => (kks, pointUpdate st unavailable v)
    else none

omit [FloatOps F64 F32] in
def collectCalcUpdates (site : Site ι F64 F32) (results : List (String × Value F32 F64 × Bool))
    (unavailable : StatusCode) : List (String × DataValue F32 F64) :=
  results.filterMap fun (kksCalc, val, valid) =>
    if site.hasNode kksCalc then
      some (kksCalc, ⟨valueToVariant val, if valid then .good else unavailable⟩)
    else none

/-- What the task owns: the nodes and the calculation context. -/
structure Picture (F64 F32 : Type) where
  nodes : String → DataValue F32 F64
  runner : CalcRunner F64

omit [FloatOps F64 F32] in
def setValues (nodes : String → DataValue F32 F64) (updates : List (String × DataValue F32 F64)) :
    String → DataValue F32 F64 :=
  updates.foldl (fun nodes u => Function.update nodes u.1 u.2) nodes

/-- `build_incremental_updates` and the write of its updates. -/
def Picture.apply (site : Site ι F64 F32) (p : Picture F64 F32) (st : DeviceStatus ι) :
    Picture F64 F32 :=
  let (runner, results) := p.runner.onUpdateWithQuality site st
  { nodes := setValues p.nodes
      (collectDeviceUpdates site st .badNoCommunication ++
        collectCalcUpdates site results .badNoCommunication)
    runner := runner }

/-- `snapshot_statuses`. -/
def snapshotStatuses (site : Site ι F64 F32) (cache : ι → Option (DeviceStatus ι)) :
    List (DeviceStatus ι) :=
  site.keyOrder.filterMap cache

/-- `build_full_sync_updates` and the write of its updates. -/
def Picture.fullSync (site : Site ι F64 F32) (p : Picture F64 F32)
    (statuses : List (DeviceStatus ι)) : Picture F64 F32 :=
  if statuses.isEmpty then p
  else
    let (runner, results) := CalcRunner.rebuildFromStatusesWithQuality site statuses
    { nodes := setValues p.nodes
        (statuses.flatMap (fun st => collectDeviceUpdates site st .badNoCommunication) ++
          collectCalcUpdates site results .badNoCommunication)
      runner := runner }

/-- `merge_initial_statuses`; the cached keys are the devices where `cached` is there. -/
def mergeInitialStatuses (site : Site ι F64 F32) (cached : ι → Option (DeviceStatus ι)) :
    List (DeviceStatus ι) :=
  site.devices.map fun d => (cached d).getD (site.zeroStatus d)

def calcUnavailable (site : Site ι F64 F32) (cached : ι → Option (DeviceStatus ι)) : StatusCode :=
  if site.devices.all fun d => (cached d).isSome then .badNoCommunication
  else .badWaitingForInitialData

def pointUnavailable (cached : ι → Option (DeviceStatus ι)) (d : ι) : StatusCode :=
  if (cached d).isSome then .badNoCommunication else .badWaitingForInitialData

/-- The preheating of the nodes: `build_initial_sync_updates` on a new runner. -/
def initialSync (site : Site ι F64 F32) (cached : ι → Option (DeviceStatus ι))
    (nodes : String → DataValue F32 F64) : Picture F64 F32 :=
  let statuses := mergeInitialStatuses site cached
  let (runner, results) := CalcRunner.rebuildFromStatusesWithQuality site statuses
  { nodes := setValues nodes
      (statuses.flatMap (fun st =>
          collectDeviceUpdates site st (pointUnavailable cached st.device)) ++
        collectCalcUpdates site results (calcUnavailable site cached))
    runner := runner }

/-! ## The workers and the task -/

/-- Where the task stands. `discarded` is between `resubscribe` and the snapshot, of the start or
of a resynchronisation. -/
inductive Phase where
  | starting
  | discarded (first : Bool)
  | running
  | lagged
  deriving DecidableEq

/-- `sent` is everything the channel was ever given and `next` the cursor of the task's receiver.
While a worker is between the cache and the broadcast, `published` still has the status before.
`initial` is the cache as the initial synchronisation found it. -/
structure State (ι F64 F32 : Type) where
  cache : ι → Option (DeviceStatus ι)
  runtime : ι → DeviceRuntimeState
  publishing : ι → Bool
  published : ι → Option (DeviceStatus ι)
  sent : List (DeviceStatus ι)
  next : Nat
  phase : Phase
  picture : Picture F64 F32
  initial : ι → Option (DeviceStatus ι)

omit [FloatOps F64 F32] in
def State.initialState (nodes : String → DataValue F32 F64) : State ι F64 F32 where
  cache _ := none
  runtime _ := {}
  publishing _ := false
  published _ := none
  sent := []
  next := 0
  phase := .starting
  picture := ⟨nodes, .new⟩
  initial _ := none

inductive Action (ι : Type) where
  /-- The worker of the device puts a status into the cache. -/
  | update (d : ι) (comStatus deviceStatus : Bool) (data : List UInt8)
  /-- It broadcasts that status, or holds it back. -/
  | broadcast (d : ι)
  /-- `discard_pending_broadcasts`. -/
  | discard
  | snapshot
  | recv

variable [DecidableEq ι]

def State.broadcast (s : State ι F64 F32) (d : ι) : Option (State ι F64 F32) :=
  match s.cache d with
  | none => none
  | some st =>
    if s.publishing d then
      let (send, runtime) := (s.runtime d).shouldBroadcast st.data st.comStatus st.deviceStatus
      some { s with
        runtime := Function.update s.runtime d runtime
        publishing := Function.update s.publishing d false
        published := Function.update s.published d (some st)
        sent := if send then s.sent ++ [st] else s.sent }
    else none

/-- `recv`, with what the task does next: a receiver that is behind by more than the capacity is
told so once and moved to the oldest status that is kept. -/
def State.recv (site : Site ι F64 F32) (s : State ι F64 F32) : Option (State ι F64 F32) :=
  if s.phase ≠ .running then none
  else if s.next + site.capacity < s.sent.length then
    some { s with next := s.sent.length - site.capacity, phase := .lagged }
  else
    match s.sent[s.next]? with
    | some st => some { s with next := s.next + 1, picture := s.picture.apply site st }
    | none => none

def State.snapshot (site : Site ι F64 F32) (s : State ι F64 F32) : Option (State ι F64 F32) :=
  match s.phase with
  | .discarded true =>
    some { s with
      phase := .running
      picture := initialSync site s.cache s.picture.nodes
      initial := s.cache }
  | .discarded false =>
    some { s with
      phase := .running
      picture := s.picture.fullSync site (snapshotStatuses site s.cache) }
  | _ => none

def step (site : Site ι F64 F32) (s : State ι F64 F32) : Action ι → Option (State ι F64 F32)
  | .update d comStatus deviceStatus data =>
    if s.publishing d then none
    else
      some { s with
        cache := Function.update s.cache d (some ⟨d, comStatus, deviceStatus, data⟩)
        publishing := Function.update s.publishing d true }
  | .broadcast d => s.broadcast d
  | .discard =>
    match s.phase with
    | .starting => some { s with next := s.sent.length, phase := .discarded true }
    | .lagged => some { s with next := s.sent.length, phase := .discarded false }
    | _ => none
  | .snapshot => s.snapshot site
  | .recv => s.recv site

end

end RcdServer.Opc.Nodes
