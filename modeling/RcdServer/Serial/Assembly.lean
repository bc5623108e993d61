import RcdServer.Serial.Manager

/-!
# Assembling and dispatching one frame

One receive attempt collects bytes until a frame is complete, or until it has to do
with what it got. The environment of an attempt is a list of turns, one for each pass
through the loop that reaches the port: whether the driver queue was found empty, and
what the read returned. A list that ends stands for a deadline that has passed.
-/
namespace RcdServer.Serial

open Protocol

def forwardHeaderLen : Nat := 7
def forwardPrefixLen : Nat := 9
def responseFrameOverhead : Nat := 5
def responseFrameOverheadWithStatusLen : Nat := 4
def readBufLen : Nat := 1024

/-! ## Frame lengths -/

/-- Only the fixed prefix counts: seven bytes with a valid checksum, then two zeros. -/
def validatedForwardDataStart (buf : List UInt8) : Option Nat :=
  if buf.length < forwardPrefixLen ∨
      (buf.take forwardPrefixLen).drop forwardHeaderLen ≠ [0, 0] ∨
      verifyChecksum (buf.take forwardHeaderLen) = false then none
  else some forwardPrefixLen

def byteAt (buf : List UInt8) (i : Nat) : Nat := (buf.getD i 0).toNat

theorem byteAt_lt (buf : List UInt8) (i : Nat) : byteAt buf i < 256 := (buf.getD i 0).toNat_lt

/-- Both deployed meanings of `data_len`: the length byte, or the number of status bytes. -/
def configuredProtocolFrameLen (buf : List UInt8) (dataStart configuredDataLen : Nat) : Nat :=
  let overhead :=
    match buf[dataStart + 2]? with
    | some declaredLen =>
      if declaredLen.toNat + 1 = configuredDataLen then responseFrameOverheadWithStatusLen
      else responseFrameOverhead
    | none => responseFrameOverhead
  configuredDataLen + overhead

namespace SerialManager

/-- Forwarded frames are looked for whenever the port is a standby by role or by configuration. -/
def acceptsForwarded (m : SerialManager) : Bool :=
  m.currentRun == .secondary || m.runOn == .secondary

def expectedFrameLen (m : SerialManager) (buf : List UInt8) : Nat :=
  let total := buf.length
  let direct := byteAt buf 2 + 5
  if m.acceptsForwarded then
    match validatedForwardDataStart buf with
    | some dataStart =>
      if dataStart + 3 ≤ total then dataStart + byteAt buf (dataStart + 2) + 5 else total + 1
    | none => if total < forwardPrefixLen then forwardPrefixLen else direct
  else direct

/-- The part of `configured_response_frame_len` for frames without a forward header. -/
def configuredDirectLen (m : SerialManager) (buf : List UInt8) : Option Nat :=
  if m.currentRun = .primary then
    (m.portConfig.devices[m.index]?).map fun dev =>
      configuredProtocolFrameLen buf 0 dev.config.dataLen.toNat
  else none

def configuredResponseFrameLen (m : SerialManager) (buf : List UInt8) : Option Nat :=
  if m.acceptsForwarded then
    match validatedForwardDataStart buf with
    | none => m.configuredDirectLen buf
    | some dataStart =>
      (buf.head?.bind fun id =>
        m.portConfig.devices.find? fun dev => dev.config.deviceId == id).map fun dev =>
          dataStart + configuredProtocolFrameLen buf dataStart dev.config.dataLen.toNat
  else m.configuredDirectLen buf

def completeFrameLen (m : SerialManager) (buf : List UInt8) : Option Nat :=
  if buf.length < 3 then none
  else
    let expected :=
      match m.configuredResponseFrameLen buf with
      | some minimum => Nat.max (m.expectedFrameLen buf) minimum
      | none => m.expectedFrameLen buf
    if expected ≤ buf.length then some expected else none

/-- A short direct answer to a temporary primary may coincide with the start of a forward header. -/
def isCompleteShortDirectCandidate (m : SerialManager) (buf : List UInt8) : Bool :=
  if m.currentRun ≠ .primary ∨ m.runOn ≠ .secondary ∨ buf.length < 3 then false
  else
    let expected := byteAt buf 2 + 5
    expected < forwardPrefixLen && buf.length == expected && verifyChecksum (buf.take expected)

end SerialManager

/-! ## The loop -/

inductive Read where
  /-- `Ok(n)` with the bytes read; no bytes is `Ok(0)`. -/
  | data (chunk : List UInt8)
  | timedOut
  | failed
  deriving DecidableEq

structure Turn where
  /-- `bytes_to_read` answered `Ok(0)` after the grace period. -/
  drained : Bool
  read : Read
  deriving DecidableEq

/-- The ways out of the loop that leave bytes to look at. -/
inductive Exit where
  | complete | shortDirect | full | emptyRead | deadline
  deriving DecidableEq

inductive Assembled where
  | frame (exit : Exit) (raw rest : List UInt8)
  | nothing
  | failed
  deriving DecidableEq

/-- Giving up on more bytes: whatever is there becomes the frame. -/
def giveUp (exit : Exit) (buf : List UInt8) : Assembled :=
  if buf = [] then .nothing else .frame exit buf []

/-- The three tests made before each read. -/
def SerialManager.beforeRead (m : SerialManager) (buf : List UInt8) (drained : Bool)
    (next : Assembled) : Assembled :=
  match m.completeFrameLen buf with
  | some n => .frame .complete (buf.take n) (buf.drop n)
  | none =>
    if m.isCompleteShortDirectCandidate buf && drained then
      .frame .shortDirect (buf.take (byteAt buf 2 + 5)) (buf.drop (byteAt buf 2 + 5))
    else if buf.length ≥ readBufLen then .frame .full buf []
    else next

def SerialManager.assemble (m : SerialManager) (buf : List UInt8) : List Turn → Assembled
  | [] => m.beforeRead buf false (giveUp .deadline buf)
  | turn :: turns =>
    m.beforeRead buf turn.drained <|
      match turn.read with
      | .data [] => giveUp .emptyRead buf
      | .data (b :: chunk) => m.assemble (buf ++ b :: chunk) turns
      | .timedOut => giveUp .deadline buf
      | .failed => .failed

/-! ## One attempt -/

namespace SerialManager

@[simps] def keepPending (m : SerialManager) (rest : List UInt8) : SerialManager :=
  { m with rxPending := rest }

/-- A valid forward header of a configured device: where the data starts, and whose it is. -/
def forwardedFrom (m : SerialManager) (raw : List UInt8) : Option (Nat × Nat) :=
  if m.acceptsForwarded then
    (validatedForwardDataStart raw).bind fun dataStart =>
      (raw.head?.bind m.deviceIndex).map fun index => (dataStart, index)
  else none

/-- The data behind the header, cut to the length it declares. -/
def forwardedFrame (raw : List UInt8) (dataStart : Nat) : List UInt8 :=
  let data := raw.drop dataStart
  if data.length ≥ 4 then data.take (byteAt data 2 + 5) else data

/-- `extract_frame`: the frame, and whether it is known whose it is. -/
def extractFrame (m : SerialManager) (raw : List UInt8) : SerialManager × List UInt8 × Bool :=
  let forwarded := m.forwardedFrom raw
  let heard := if forwarded.isSome then m.note (.header m.currentRun) else m
  let m :=
    if m.currentRun = .primary ∧ m.runOn = .secondary ∧ forwarded.isSome then
      heard.switchRole .secondary
    else heard
  if m.currentRun = .secondary then
    match forwarded with
    | some (dataStart, index) => ({ m with index := index }, forwardedFrame raw dataStart, true)
    | none => (m, raw, false)
  else (m, raw, true)

end SerialManager

inductive ReceiveDataOutcome where
  | success
  | retryable (failure : QueryFailure)
  | transportHandled
  | unattributedHandled
  deriving DecidableEq

namespace SerialManager

/-- From the extracted frame on. -/
def dispatch (m : SerialManager) (frame : List UInt8) (attributed : Bool) :
    SerialManager × ReceiveDataOutcome :=
  -- A primary takes one answer for each query; a standby keeps the frames that follow.
  let m := if m.currentRun = .primary then m.keepPending [] else m
  if !attributed then (m.handleUnattributedFrame, .unattributedHandled)
  else
    match parseDataPacket frame with
    | .ok packet =>
      let m := if m.currentRun = .secondary then m.note .forwarded else m
      (m.handleValidPacket packet frame, .success)
    | .error reason => (m, .retryable (.badFrame reason frame))

def receiveDataAttempt (m : SerialManager) (turns : List Turn) (reopen : Reopen) :
    SerialManager × ReceiveDataOutcome :=
  if !m.portOpen then (m.reconnect reopen, .transportHandled)
  else
    match m.assemble m.rxPending turns with
    | .nothing => (m.keepPending [], .retryable .readTimeout)
    | .failed => (m.closeAndReconnect reopen, .transportHandled)
    | .frame _ raw rest =>
      let m := m.keepPending rest
      if raw = [] then (m, .retryable .readTimeout)
      else
        let (m, frame, attributed) := m.extractFrame raw
        m.dispatch frame attributed

end SerialManager

/-! ## What an attempt can do -/

namespace SerialManager

/-- The port after a forward header of station `i`: a standby again, listening to that station. -/
def heard (m : SerialManager) (i : Nat) : SerialManager :=
  let heard := m.note (.header m.currentRun)
  { (if m.currentRun = .primary then heard.switchRole .secondary else heard) with index := i }

theorem forwardedFrom_standby {m : SerialManager} {raw : List UInt8} {x : Nat × Nat}
    (h : m.forwardedFrom raw = some x) : m.currentRun = .secondary ∨ m.runOn = .secondary := by
  unfold forwardedFrom at h
  split at h
  · rename_i hacc
    simpa [acceptsForwarded] using hacc
  · cases h

theorem extractFrame_forwarded {m : SerialManager} {raw : List UInt8} {start i : Nat}
    (h : m.forwardedFrom raw = some (start, i)) :
    m.extractFrame raw = (m.heard i, forwardedFrame raw start, true) := by
  have hstandby := forwardedFrom_standby h
  unfold extractFrame heard
  rw [h]
  cases hrun : m.currentRun with
  | secondary => simp [note, hrun]
  | primary =>
    have hon : m.runOn = .secondary := by simpa [hrun] using hstandby
    simp [note, switchRole, hon]

theorem extractFrame_unattributed {m : SerialManager} {raw : List UInt8}
    (h : m.forwardedFrom raw = none) (hrun : m.currentRun = .secondary) :
    m.extractFrame raw = (m, raw, false) := by
  simp [extractFrame, h, hrun]

theorem extractFrame_direct {m : SerialManager} {raw : List UInt8}
    (h : m.forwardedFrom raw = none) (hrun : m.currentRun = .primary) :
    m.extractFrame raw = (m, raw, true) := by
  simp [extractFrame, h, hrun]

@[simp] theorem heard_currentRun (m : SerialManager) (i : Nat) :
    (m.heard i).currentRun = .secondary := by
  unfold heard
  cases hrun : m.currentRun <;> simp [note, switchRole, hrun]

@[simp] theorem heard_index (m : SerialManager) (i : Nat) : (m.heard i).index = i := rfl

@[simp] theorem heard_portConfig (m : SerialManager) (i : Nat) :
    (m.heard i).portConfig = m.portConfig := by
  unfold heard
  cases m.currentRun <;> rfl

theorem heard_reads (m : SerialManager) (i j : Nat) : (m.heard i).reads j = m.reads j := by
  refine reads_eq_of_gates (by rw [heard_portConfig]) ?_ j
  unfold heard
  cases m.currentRun with
  | primary => simp [note, switchRole]
  | secondary => simp [note]

end SerialManager

/-- The ways an attempt can go, from the state it starts in. -/
inductive Reception (m : SerialManager) (turns : List Turn) :
    SerialManager → ReceiveDataOutcome → Prop
  /-- No bytes to look at: the port was closed or failed, or nothing came. -/
  | silent {m' out} (hw : Withdraws m m')
      (hnone : m.portOpen = true → ∀ exit raw rest,
        m.assemble m.rxPending turns = .frame exit raw rest → raw = [])
      (hout : out = .transportHandled ∨ out = .retryable .readTimeout) : Reception m turns m' out
  /-- A frame behind a forward header of station `i`. -/
  | forwarded {exit raw rest start i} (hopen : m.portOpen = true)
      (hraw : m.assemble m.rxPending turns = .frame exit raw rest)
      (hfwd : m.forwardedFrom raw = some (start, i)) :
      Reception m turns
        (((m.keepPending rest).heard i).dispatch
          (SerialManager.forwardedFrame raw start) true).1
        (((m.keepPending rest).heard i).dispatch
          (SerialManager.forwardedFrame raw start) true).2
  | unattributed {exit raw rest} (hopen : m.portOpen = true)
      (hraw : m.assemble m.rxPending turns = .frame exit raw rest)
      (hfwd : m.forwardedFrom raw = none) (hrun : m.currentRun = .secondary) :
      Reception m turns (m.keepPending rest).handleUnattributedFrame
        .unattributedHandled
  /-- An answer to a query of this port. -/
  | direct {exit raw rest} (hopen : m.portOpen = true)
      (hraw : m.assemble m.rxPending turns = .frame exit raw rest)
      (hfwd : m.forwardedFrom raw = none) (hrun : m.currentRun = .primary) :
      Reception m turns
        ((m.keepPending rest).dispatch raw true).1
        ((m.keepPending rest).dispatch raw true).2

theorem receiveDataAttempt_cases (m : SerialManager) (turns : List Turn) (reopen : Reopen) :
    Reception m turns (m.receiveDataAttempt turns reopen).1 (m.receiveDataAttempt turns reopen).2 := by
  unfold SerialManager.receiveDataAttempt
  by_cases hopen : m.portOpen = true
  · rw [if_neg (by simp [hopen])]
    cases hraw : m.assemble m.rxPending turns with
    | nothing =>
      exact .silent (withdraws_connection m m.portOpen m.portOfflinePublished [])
        (by simp [hraw]) (.inr rfl)
    | failed => exact .silent (closeAndReconnect_withdraws m reopen) (by simp [hraw]) (.inl rfl)
    | frame exit raw rest =>
      dsimp only
      by_cases hempty : raw = []
      · rw [if_pos hempty]
        exact .silent (withdraws_connection m m.portOpen m.portOfflinePublished rest)
          (by simp [hraw, hempty]) (.inr rfl)
      · rw [if_neg hempty]
        cases hfwd : m.forwardedFrom raw with
        | some x =>
          have hkept : (m.keepPending rest).forwardedFrom raw = some (x.1, x.2) := hfwd
          rw [SerialManager.extractFrame_forwarded hkept]
          exact .forwarded hopen hraw hfwd
        | none =>
          rcases m.currentRun.eq_primary_or_secondary with hrun | hrun
          · rw [SerialManager.extractFrame_direct (m := m.keepPending rest) hfwd hrun]
            exact .direct hopen hraw hfwd hrun
          · rw [SerialManager.extractFrame_unattributed (m := m.keepPending rest) hfwd hrun]
            have hkeep : (m.keepPending rest).dispatch raw false =
                ((m.keepPending rest).handleUnattributedFrame,
                  .unattributedHandled) := by
              simp [SerialManager.dispatch, hrun]
            rw [hkeep]
            exact .unattributed hopen hraw hfwd hrun
  · rw [if_pos (by simp [hopen])]
    exact .silent (reconnect_withdraws m reopen) (by simp [hopen]) (.inl rfl)

/-! ## Handling a valid packet -/

theorem handleValidPacket_stopped {m : SerialManager} (packet : DataPacket) (frame : List UInt8)
    (h : m.reads m.index = false) : Withdraws m (m.handleValidPacket packet frame) := by
  simp only [SerialManager.handleValidPacket, h, Bool.not_false, if_true]
  exact sendZero_withdraws m m.index _

theorem handleValidPacket_published {m : SerialManager} {dev : DeviceConfig} (packet : DataPacket)
    (frame : List UInt8) (h : m.reads m.index = true)
    (hdev : m.portConfig.devices[m.index]? = some dev) :
    (m.handleValidPacket packet frame).portConfig = m.portConfig ∧
      (m.handleValidPacket packet frame).index = m.index ∧
      (m.handleValidPacket packet frame).runOn = m.runOn ∧
      (m.handleValidPacket packet frame).currentRun = m.currentRun ∧
      (m.handleValidPacket packet frame).timeOutCount = 0 ∧
      (m.handleValidPacket packet frame).log =
        .published (statusOf m.portConfig.portNumber dev true true packet.status frame) :: m.log := by
  simp only [SerialManager.handleValidPacket, h, hdev, Bool.not_true, Bool.false_eq_true, if_false]
  obtain ⟨hport, hindex, hon, hrun, htime, -, hlog⟩ := publish_frame
    { m.modifyState m.index (fun s => { s with timeoutCount := 0, parseFailCount := 0 }) with
      timeOutCount := 0, parseFailCount := 0 } m.index packet.status
    (statusOf m.portConfig.portNumber dev true true packet.status frame)
  exact ⟨hport, hindex, hon, hrun, htime, hlog⟩

theorem handleValidPacket_missing {m : SerialManager} (packet : DataPacket) (frame : List UInt8)
    (h : m.reads m.index = true) (hdev : m.portConfig.devices[m.index]? = none) :
    m.handleValidPacket packet frame = m := by
  simp only [SerialManager.handleValidPacket, h, hdev, Bool.not_true, Bool.false_eq_true, if_false]

/-- The state in which a dispatched valid packet is handled. -/
def SerialManager.beforeHandling (m : SerialManager) : SerialManager :=
  if m.currentRun = .primary then m.keepPending [] else m.note .forwarded

theorem dispatch_ok {m : SerialManager} {frame : List UInt8} {packet : DataPacket}
    (h : parseDataPacket frame = .ok packet) :
    m.dispatch frame true = (m.beforeHandling.handleValidPacket packet frame, .success) := by
  rcases m.currentRun.eq_primary_or_secondary with hrun | hrun
  · simp [SerialManager.dispatch, SerialManager.beforeHandling, h, hrun]
  · simp [SerialManager.dispatch, SerialManager.beforeHandling, h, hrun]

theorem beforeHandling_frame (m : SerialManager) :
    m.beforeHandling.portConfig = m.portConfig ∧ m.beforeHandling.index = m.index ∧
      m.beforeHandling.runOn = m.runOn ∧ m.beforeHandling.currentRun = m.currentRun ∧
      m.beforeHandling.timeOutCount = m.timeOutCount ∧
      m.beforeHandling.parseFailCount = m.parseFailCount ∧
      m.beforeHandling.deviceStates = m.deviceStates ∧
      m.beforeHandling.log = if m.currentRun = .primary then m.log else .forwarded :: m.log := by
  unfold SerialManager.beforeHandling
  split_ifs <;> exact ⟨rfl, rfl, rfl, rfl, rfl, rfl, rfl, rfl⟩

theorem beforeHandling_reads (m : SerialManager) (i : Nat) : m.beforeHandling.reads i = m.reads i := by
  obtain ⟨hport, -, -, -, -, -, hstates, -⟩ := beforeHandling_frame m
  simp only [SerialManager.reads, hport, hstates]

end RcdServer.Serial
