import RcdServer.Serial.Roles

/-!
# Round robin

Which station a primary asks in which pass. Passes that execute a control command leave the turn
where it is; all others go round. A station that has failed too often sits out some of its turns and
then gets one: it sits out one turn more than `deviceSkipRounds`, because the counter is compared
before it is raised.
-/
namespace RcdServer.Serial

open Protocol

/-! ## Turns of a run -/

/-- The actions of a run, each with the state before it. -/
def SerialManager.steps (retryCount : Nat) (m : SerialManager) :
    List WorkerAction → List (SerialManager × WorkerAction)
  | [] => []
  | a :: actions => (m, a) :: steps retryCount (m.act retryCount a) actions

/-- A pass that executes no control command. -/
def isTurn (s : SerialManager × WorkerAction) : Bool :=
  match s.2 with
  | .cycle c => c.command.isNone
  | _ => false

def turnOf (i : Nat) (s : SerialManager × WorkerAction) : Bool := isTurn s && s.1.index == i

/-- The station has failed more often than it may. -/
def SerialManager.backsOff (m : SerialManager) (i : Nat) : Bool :=
  (m.deviceStates[i]?).any fun s => deviceTimeoutSkip < s.timeoutCount

def SerialManager.roundOf (m : SerialManager) (i : Nat) : UInt32 :=
  ((m.deviceStates[i]?).map (·.currentRound)).getD 0

/-- The station would sit out its turn. -/
def SerialManager.sitsOut (m : SerialManager) (i : Nat) : Bool :=
  m.backsOff i && m.roundOf i ≤ deviceSkipRounds

/-- Two turns at which a station may be queried, with none at which it may between them, while it
has failed too often all the time. -/
structure Gap (i : Nat) (steps : List (SerialManager × WorkerAction))
    (x : SerialManager × WorkerAction) (between : List (SerialManager × WorkerAction))
    (y : SerialManager × WorkerAction) : Prop where
  split : ∃ before after, steps = before ++ x :: (between ++ y :: after)
  first : turnOf i x = true ∧ x.1.sitsOut i = false
  last : turnOf i y = true ∧ y.1.sitsOut i = false
  skipped : ∀ s ∈ between, turnOf i s = true → s.1.sitsOut i = true
  failing : ∀ s ∈ between ++ [y], s.1.backsOff i = true

structure RoundRobin (stations : Nat) (steps : List (SerialManager × WorkerAction)) : Prop where
  bounded : ∀ s ∈ steps, s.1.index < stations
  cyclic : ∀ before x between y after, steps = before ++ x :: (between ++ y :: after) →
    isTurn x = true → isTurn y = true → (∀ s ∈ between, isTurn s = false) →
    y.1.index = (x.1.index + 1) % stations
  backOff : ∀ i x between y, Gap i steps x between y →
    (between.filter (turnOf i)).length = deviceSkipRounds.toNat

/-! ## What leaves the turn where it is -/

/-- Neither the turn nor the counters of skipped turns. -/
structure Still (m m' : SerialManager) : Prop where
  devices : m'.portConfig.devices = m.portConfig.devices
  rounds : m'.deviceStates.map (·.currentRound) = m.deviceStates.map (·.currentRound)
  index : m'.index = m.index

theorem Still.rfl {m : SerialManager} : Still m m := ⟨Eq.refl _, Eq.refl _, Eq.refl _⟩

theorem Still.trans {a b c : SerialManager} (hab : Still a b) (hbc : Still b c) : Still a c :=
  ⟨hbc.devices.trans hab.devices, hbc.rounds.trans hab.rounds, hbc.index.trans hab.index⟩

theorem rounds_of_gates {m m' : SerialManager}
    (h : m'.deviceStates.map (·.gate) = m.deviceStates.map (·.gate)) :
    m'.deviceStates.map (·.currentRound) = m.deviceStates.map (·.currentRound) := by
  have hrounds := congrArg (List.map Gate.currentRound) h
  rwa [List.map_map, List.map_map] at hrounds

theorem Withdraws.still {m m' : SerialManager} (h : Withdraws m m') : Still m m' :=
  ⟨congrArg SerialPortConfig.devices h.portConfig, rounds_of_gates h.gates, h.index⟩

theorem publish_still (m : SerialManager) (index : Nat) (data : List UInt8) (s : DeviceStatus) :
    Still m (m.publish index data s) := by
  obtain ⟨hport, hindex, -⟩ := publish_frame m index data s
  exact ⟨congrArg SerialPortConfig.devices hport, rounds_of_gates (publish_gates m index data s),
    hindex⟩

theorem modifyState_at (m : SerialManager) (index i : Nat)
    (f : DeviceRuntimeState → DeviceRuntimeState) :
    (m.modifyState index f).deviceStates[i]? =
      (m.deviceStates[i]?).map fun s => if index = i then f s else s := by
  rw [SerialManager.modifyState, List.getElem?_modify]
  rfl

theorem modifyState_still (m : SerialManager) (i : Nat)
    {f : DeviceRuntimeState → DeviceRuntimeState} (hf : ∀ s, (f s).currentRound = s.currentRound) :
    Still m (m.modifyState i f) where
  devices := Eq.refl _
  rounds := by
    refine List.ext_getElem? fun j => ?_
    rw [List.getElem?_map, List.getElem?_map, modifyState_at, Option.map_map]
    congr 1
    funext s
    by_cases hij : i = j
    · simp [hij, hf]
    · simp [hij]
  index := Eq.refl _

theorem switchRole_still (m : SerialManager) (role : RunLocation) : Still m (m.switchRole role) where
  devices := Eq.refl _
  rounds := by simp [SerialManager.switchRole, Function.comp_def]
  index := Eq.refl _

theorem countTimeOut_still (m : SerialManager) : Still m m.countTimeOut :=
  { Still.rfl (m := m) with }

/-- The failures of the port to parse are no part of it either. -/
theorem still_parseFailCount (m : SerialManager) (count : UInt32) :
    Still m { m with parseFailCount := count } :=
  { Still.rfl (m := m) with }

theorem promoteIfSilent_still (m : SerialManager) : Still m m.promoteIfSilent := by
  unfold SerialManager.promoteIfSilent
  split_ifs
  · exact switchRole_still m _
  · exact Still.rfl

theorem demoteIfUnreadable_still (m : SerialManager) : Still m m.demoteIfUnreadable := by
  unfold SerialManager.demoteIfUnreadable
  split_ifs
  · exact switchRole_still m _
  · exact Still.rfl

theorem handleUnattributedFrame_still (m : SerialManager) : Still m m.handleUnattributedFrame :=
  (still_parseFailCount m (m.parseFailCount + 1)).trans
    ((countTimeOut_still _).trans (promoteIfSilent_still _))

theorem handleDeviceFailure_still (m : SerialManager) (comStatus : Bool) :
    Still m (m.handleDeviceFailure comStatus) := by
  have hcounted := modifyState_still m m.index
    (f := fun s => { s with timeoutCount := s.timeoutCount + 1 }) fun _ => rfl
  exact hcounted.trans ((countTimeOut_still _).trans
    ((sendZero_withdraws _ _ comStatus).still.trans (promoteIfSilent_still _)))

theorem handleInvalidFrame_still (m : SerialManager) (comStatus : Bool) :
    Still m (m.handleInvalidFrame comStatus) := by
  have hcounted := modifyState_still m m.index
    (f := fun s => { s with parseFailCount := s.parseFailCount + 1 }) fun _ => rfl
  exact hcounted.trans ((still_parseFailCount _ (m.parseFailCount + 1)).trans
    ((handleDeviceFailure_still _ comStatus).trans (demoteIfUnreadable_still _)))

theorem commitQueryFailure_still (m : SerialManager) (failure : QueryFailure) (comStatus : Bool) :
    Still m (m.commitQueryFailure failure comStatus) := by
  cases failure with
  | readTimeout => exact handleDeviceFailure_still m comStatus
  | badFrame reason frame => exact handleInvalidFrame_still m comStatus

theorem handleValidPacket_still (m : SerialManager) (packet : DataPacket) (frame : List UInt8) :
    Still m (m.handleValidPacket packet frame) := by
  cases hreads : m.reads m.index with
  | false => exact (handleValidPacket_stopped packet frame hreads).still
  | true =>
    cases hdev : m.portConfig.devices[m.index]? with
    | none =>
      rw [handleValidPacket_missing packet frame hreads hdev]
      exact Still.rfl
    | some dev =>
      have hcleared := modifyState_still m m.index
        (f := fun s => { s with timeoutCount := 0, parseFailCount := 0 }) fun _ => rfl
      set cleared := m.modifyState m.index fun s => { s with timeoutCount := 0, parseFailCount := 0 }
      have hcounters : Still cleared { cleared with timeOutCount := 0, parseFailCount := 0 } :=
        { Still.rfl (m := cleared) with }
      simp only [SerialManager.handleValidPacket, hreads, hdev, Bool.not_true, Bool.false_eq_true,
        if_false]
      exact hcleared.trans (hcounters.trans (publish_still _ _ _ _))

theorem beforeHandling_still (m : SerialManager) : Still m m.beforeHandling := by
  unfold SerialManager.beforeHandling
  split_ifs
  · exact ⟨rfl, rfl, rfl⟩
  · exact ⟨rfl, rfl, rfl⟩

/-- A primary forgets what came after a frame that does not parse. -/
def SerialManager.afterBadFrame (m : SerialManager) : SerialManager :=
  if m.currentRun = .primary then m.keepPending [] else m

theorem dispatch_error {m : SerialManager} {frame : List UInt8} {reason : String}
    (h : parseDataPacket frame = .error reason) :
    m.dispatch frame true = (m.afterBadFrame, .retryable (.badFrame reason frame)) := by
  simp [SerialManager.dispatch, SerialManager.afterBadFrame, h]

theorem afterBadFrame_frame (m : SerialManager) :
    Still m m.afterBadFrame ∧ m.afterBadFrame.currentRun = m.currentRun ∧
      m.afterBadFrame.timeOutCount = m.timeOutCount := by
  unfold SerialManager.afterBadFrame
  split_ifs
  · exact ⟨⟨rfl, rfl, rfl⟩, rfl, rfl⟩
  · exact ⟨Still.rfl, rfl, rfl⟩

theorem dispatch_still (m : SerialManager) (frame : List UInt8) :
    Still m (m.dispatch frame true).1 := by
  cases hparse : parseDataPacket frame with
  | ok packet =>
    rw [dispatch_ok hparse]
    exact (beforeHandling_still m).trans (handleValidPacket_still _ packet frame)
  | error reason =>
    rw [dispatch_error hparse]
    exact (afterBadFrame_frame m).1

/-! ## Listening to another station -/

/-- As a standby the port listens to whichever station is forwarded to it. -/
structure Elsewhere (m m' : SerialManager) : Prop where
  devices : m'.portConfig.devices = m.portConfig.devices
  rounds : m'.deviceStates.map (·.currentRound) = m.deviceStates.map (·.currentRound)
  bounded : m'.index < m.portConfig.devices.length
  run : m'.currentRun = .secondary

theorem Elsewhere.still {m mid m' : SerialManager} (h : Elsewhere m mid) (hstill : Still mid m')
    (hrun : m'.currentRun = .secondary) : Elsewhere m m' where
  devices := hstill.devices.trans h.devices
  rounds := hstill.rounds.trans h.rounds
  bounded := by
    rw [hstill.index]
    exact h.bounded
  run := hrun

theorem Still.elsewhere {m mid m' : SerialManager} (hstill : Still m mid) (h : Elsewhere mid m') :
    Elsewhere m m' where
  devices := h.devices.trans hstill.devices
  rounds := h.rounds.trans hstill.rounds
  bounded := by
    rw [← hstill.devices]
    exact h.bounded
  run := h.run

theorem heard_elsewhere {m : SerialManager} {raw : List UInt8} {start i : Nat}
    (h : m.forwardedFrom raw = some (start, i)) : Elsewhere m (m.heard i) := by
  obtain ⟨dev, hdev⟩ := forwardedFrom_device h
  refine ⟨?_, ?_, ?_, SerialManager.heard_currentRun m i⟩
  · rw [SerialManager.heard_portConfig]
  · unfold SerialManager.heard
    cases m.currentRun with
    | primary => simp [SerialManager.note, SerialManager.switchRole, Function.comp_def]
    | secondary => simp [SerialManager.note]
  · rw [SerialManager.heard_index]
    exact (List.getElem?_eq_some_iff.mp hdev).1

theorem handleValidPacket_run (m : SerialManager) (packet : DataPacket) (frame : List UInt8) :
    (m.handleValidPacket packet frame).currentRun = m.currentRun ∧
      (m.timeOutCount = 0 → (m.handleValidPacket packet frame).timeOutCount = 0) := by
  cases hreads : m.reads m.index with
  | false =>
    have hw := handleValidPacket_stopped packet frame hreads
    exact ⟨hw.currentRun, fun h => hw.timeOutCount.trans h⟩
  | true =>
    cases hdev : m.portConfig.devices[m.index]? with
    | none =>
      rw [handleValidPacket_missing packet frame hreads hdev]
      exact ⟨rfl, id⟩
    | some dev =>
      obtain ⟨-, -, -, hrun, htime, -⟩ := handleValidPacket_published packet frame hreads hdev
      exact ⟨hrun, fun _ => htime⟩

/-- A dispatched frame that has a sender does not change the role, nor does it raise the counter. -/
theorem dispatch_run (m : SerialManager) (frame : List UInt8) :
    (m.dispatch frame true).1.currentRun = m.currentRun ∧
      (m.timeOutCount = 0 → (m.dispatch frame true).1.timeOutCount = 0) := by
  cases hparse : parseDataPacket frame with
  | ok packet =>
    rw [dispatch_ok hparse]
    obtain ⟨-, -, -, hrun, htime, -⟩ := beforeHandling_frame m
    obtain ⟨hrun', htime'⟩ := handleValidPacket_run m.beforeHandling packet frame
    exact ⟨hrun'.trans hrun, fun h => htime' (htime.trans h)⟩
  | error reason =>
    rw [dispatch_error hparse]
    obtain ⟨-, hrun, htime⟩ := afterBadFrame_frame m
    exact ⟨hrun, fun h => htime.trans h⟩

/-- An attempt stays with its station, or the port listens to another one from now on; a primary
that does so starts to count from 0. -/
theorem receiveDataAttempt_stays (m : SerialManager) (turns : List Turn) (reopen : Reopen) :
    Still m (m.receiveDataAttempt turns reopen).1 ∨
      Elsewhere m (m.receiveDataAttempt turns reopen).1 ∧
        (m.currentRun = .primary → (m.receiveDataAttempt turns reopen).1.timeOutCount = 0) := by
  have hcases := receiveDataAttempt_cases m turns reopen
  generalize (m.receiveDataAttempt turns reopen).1 = m' at hcases ⊢
  generalize (m.receiveDataAttempt turns reopen).2 = out at hcases
  cases hcases with
  | silent hw hnone hout => exact .inl hw.still
  | unattributed hopen hraw hfwd hrun =>
    rename_i exit raw rest
    have hkept : Still m (m.keepPending rest) := ⟨rfl, rfl, rfl⟩
    exact .inl (hkept.trans (handleUnattributedFrame_still _))
  | direct hopen hraw hfwd hrun =>
    rename_i exit raw rest
    have hkept : Still m (m.keepPending rest) := ⟨rfl, rfl, rfl⟩
    exact .inl (hkept.trans (dispatch_still _ raw))
  | forwarded hopen hraw hfwd =>
    rename_i exit raw rest start i
    have hkept : Still m (m.keepPending rest) := ⟨rfl, rfl, rfl⟩
    have hheard : Elsewhere (m.keepPending rest) ((m.keepPending rest).heard i) :=
      heard_elsewhere hfwd
    obtain ⟨hrun, htime⟩ := dispatch_run ((m.keepPending rest).heard i)
      (SerialManager.forwardedFrame raw start)
    refine .inr ⟨(hkept.elsewhere hheard).still (dispatch_still _ _) (hrun.trans hheard.run), ?_⟩
    intro hprimary
    exact htime (by simp [SerialManager.heard, SerialManager.switchRole, hprimary])

/-- A standby that has just begun to count is not promoted by one failure. -/
theorem handleDeviceFailure_run {m : SerialManager} (comStatus : Bool)
    (hrun : m.currentRun = .secondary) (htime : m.timeOutCount = 0) :
    (m.handleDeviceFailure comStatus).currentRun = .secondary := by
  set counted := (m.modifyState m.index fun s =>
    { s with timeoutCount := s.timeoutCount + 1 }).countTimeOut with hcounted
  have hw : Withdraws counted (counted.sendZeroStatus comStatus false) :=
    sendZero_withdraws counted counted.index comStatus
  have hone : (counted.sendZeroStatus comStatus false).timeOutCount = 1 := by
    rw [hw.timeOutCount, hcounted]
    simp [SerialManager.countTimeOut, SerialManager.modifyState, htime]
  have hsecondary : (counted.sendZeroStatus comStatus false).currentRun = .secondary :=
    hw.currentRun.trans hrun
  have hquiet : ¬ ((counted.sendZeroStatus comStatus false).timeOutCount > portFailoverTimeout ∧
      (counted.sendZeroStatus comStatus false).currentRun = .secondary ∧
      (counted.sendZeroStatus comStatus false).runOn = .secondary) := by
    rw [hone]
    exact fun h => absurd h.1 (by decide)
  have hstep : m.handleDeviceFailure comStatus = counted.sendZeroStatus comStatus false :=
    if_neg hquiet
  rw [hstep]
  exact hsecondary

theorem demoteIfUnreadable_run {m : SerialManager} (hrun : m.currentRun = .secondary) :
    m.demoteIfUnreadable.currentRun = .secondary := by
  unfold SerialManager.demoteIfUnreadable
  split_ifs
  · rfl
  · exact hrun

theorem commitQueryFailure_run {m : SerialManager} (failure : QueryFailure) (comStatus : Bool)
    (hrun : m.currentRun = .secondary) (htime : m.timeOutCount = 0) :
    (m.commitQueryFailure failure comStatus).currentRun = .secondary := by
  cases failure with
  | readTimeout => exact handleDeviceFailure_run comStatus hrun htime
  | badFrame reason frame =>
    exact demoteIfUnreadable_run (handleDeviceFailure_run comStatus hrun htime)

/-! ## Passes -/

/-- The turn stays, or the port is a standby that listens elsewhere. -/
def Stays (m m' : SerialManager) : Prop := Still m m' ∨ Elsewhere m m'

theorem Still.stays {m mid m' : SerialManager} (hstill : Still m mid) (h : Stays mid m') :
    Stays m m' := by
  rcases h with h | h
  · exact .inl (hstill.trans h)
  · exact .inr (hstill.elsewhere h)

/-- An answer of a station that was queried as a primary. -/
theorem receiveData_stays {m : SerialManager} (turns : List Turn) (reopen : Reopen)
    (hrun : m.currentRun = .primary) : Stays m (m.receiveData turns reopen) := by
  have hattempt := receiveDataAttempt_stays m turns reopen
  unfold SerialManager.receiveData
  split
  · rename_i m' failure heq
    rw [heq] at hattempt
    rcases hattempt with hstill | ⟨helse, htime⟩
    · exact .inl (hstill.trans (commitQueryFailure_still m' failure true))
    · exact .inr (helse.still (commitQueryFailure_still m' failure true)
        (commitQueryFailure_run failure true helse.run (htime hrun)))
  · rename_i m' out _ heq
    rw [heq] at hattempt
    exact hattempt.imp_right And.left

theorem query_still (m : SerialManager) (deviceId : UInt8) (t : Transmit) :
    Still m (((m.keepPending []).note (.queried deviceId)).sendCommand t).1 := by
  have hnoted : Still m ((m.keepPending []).note (.queried deviceId)) := ⟨rfl, rfl, rfl⟩
  exact hnoted.trans (sendCommand_withdraws _ t).still

theorem retryQuery_stays {m : SerialManager} (deviceId : UInt8) (failure : QueryFailure)
    (q : QueryTurns) (hrun : m.currentRun = .primary) :
    Stays m (m.retryQuery deviceId failure q) := by
  have hstill := query_still m deviceId q.resend
  have hrun' := (query_moves deviceId q.resend hrun).2
  unfold SerialManager.retryQuery
  generalize ((m.keepPending []).note (.queried deviceId)).sendCommand q.resend = sent
    at hstill hrun' ⊢
  dsimp only
  split_ifs
  · exact .inl (hstill.trans (commitQueryFailure_still _ _ _))
  · exact hstill.stays (receiveData_stays q.second q.secondReopen hrun')

theorem receiveQueryWithRetry_stays {m : SerialManager} (retryCount : Nat) (q : QueryTurns)
    (hrun : m.currentRun = .primary) : Stays m (m.receiveQueryWithRetry retryCount q) := by
  have hattempt := receiveDataAttempt_stays m q.first q.firstReopen
  unfold SerialManager.receiveQueryWithRetry
  split
  · exact .inl Still.rfl
  · dsimp only
    split
    · rename_i m' failure heq
      rw [heq] at hattempt
      rcases hattempt with hstill | ⟨helse, htime⟩
      · split_ifs with hgive
        · exact .inl (hstill.trans (commitQueryFailure_still m' failure true))
        · simp only [not_or, not_not] at hgive
          exact hstill.stays (retryQuery_stays _ failure q hgive.2.1)
      · have hgive : retryCount = 0 ∨ m'.currentRun ≠ .primary ∨ m'.index ≠ m.index := by
          refine .inr (.inl ?_)
          rw [helse.run]
          exact nofun
        rw [if_pos hgive]
        exact .inr (helse.still (commitQueryFailure_still m' failure true)
          (commitQueryFailure_run failure true helse.run (htime hrun)))
    · rename_i m' out _ heq
      rw [heq] at hattempt
      exact hattempt.imp_right And.left

theorem versionTransaction_still (m : SerialManager) (deviceId : UInt8) (t : VersionTurn) :
    Still m (m.versionTransaction deviceId t) := by
  have hquery := query_still m deviceId t.send
  unfold SerialManager.versionTransaction
  generalize ((m.keepPending []).note (.queried deviceId)).sendCommand t.send = sent at hquery ⊢
  have hkept : Still sent.1 (sent.1.keepPending []) := ⟨rfl, rfl, rfl⟩
  dsimp only
  split
  · exact hquery.trans (closeAndReconnect_withdraws _ _).still
  · exact hquery.trans hkept
  · split_ifs
    · exact hquery.trans hkept
    · exact hquery

theorem performStationVersionQuery_still (m : SerialManager) (deviceId : UInt8) (t : VersionTurn) :
    Still m (m.performStationVersionQuery deviceId t) := by
  have hopened := (openForQuery_withdraws m t.reopenBefore).still
  unfold SerialManager.performStationVersionQuery
  split
  · exact Still.rfl
  · split_ifs
    · exact Still.rfl
    · exact Still.rfl
    · exact hopened
    · exact hopened.trans (versionTransaction_still _ deviceId t)

theorem executeScheduledQuery_still (m : SerialManager) (c : Cycle) :
    Still m (m.executeScheduledQuery c) := by
  unfold SerialManager.executeScheduledQuery
  split
  · exact performStationVersionQuery_still m _ _
  · exact Still.rfl

/-- The counters of skipped turns after the turn of a station. -/
def SerialManager.turned (m : SerialManager) : SerialManager :=
  match m.deviceStates[m.index]? with
  | some state => (m.skipRound state).1
  | none => m

theorem skipRound_frame (m : SerialManager) (state : DeviceRuntimeState) :
    (m.skipRound state).1.currentRun = m.currentRun ∧
      (m.skipRound state).1.portConfig = m.portConfig ∧ (m.skipRound state).1.index = m.index := by
  unfold SerialManager.skipRound
  split_ifs <;> exact ⟨rfl, rfl, rfl⟩

/-- A pass without a control command is a turn, skipped or not. -/
theorem runPrimaryCycle_turn {m : SerialManager} (retryCount : Nat) {c : Cycle}
    (hrun : m.currentRun = .primary) (hcommand : c.command = none)
    (hindex : m.index < m.portConfig.devices.length) :
    Stays m.turned ((m.runPrimaryCycle c).1.receiveAfter retryCount c (m.runPrimaryCycle c).2) ∧
      (m.runPrimaryCycle c).2 ≠ .commandHandled := by
  unfold SerialManager.runPrimaryCycle SerialManager.turned
  rw [hcommand, List.getElem?_eq_getElem hindex]
  dsimp only
  cases hstate : m.deviceStates[m.index]? with
  | none => exact ⟨.inl Still.rfl, nofun⟩
  | some state =>
    have hrun' := (skipRound_frame m state).1.trans hrun
    have hstill := query_still (m.skipRound state).1
      m.portConfig.devices[m.index].config.deviceId c.send
    have hsent := (query_moves m.portConfig.devices[m.index].config.deviceId c.send hrun').2
    dsimp only
    split_ifs
    · exact ⟨.inl Still.rfl, nofun⟩
    · exact ⟨.inl Still.rfl, nofun⟩
    · exact ⟨hstill.stays (receiveQueryWithRetry_stays retryCount c.query hsent), nofun⟩
    · exact ⟨.inl hstill, nofun⟩

/-- After a turn the next station is due, unless the port has become a standby. -/
theorem advanceIndex_turn {m : SerialManager} {c : Cycle} {result : CycleResult}
    (hresult : result ≠ .commandHandled) :
    (m.advanceIndex c result).portConfig.devices = m.portConfig.devices ∧
      (m.advanceIndex c result).deviceStates.map (·.currentRound) =
        m.deviceStates.map (·.currentRound) ∧
      (m.currentRun = .primary →
        (m.advanceIndex c result).index = (m.index + 1) % m.portConfig.devices.length) ∧
      (m.currentRun = .secondary → m.advanceIndex c result = m) := by
  unfold SerialManager.advanceIndex
  rcases m.currentRun.eq_primary_or_secondary with hrun | hrun
  · rw [if_pos ⟨hrun, hresult⟩]
    split_ifs
    · have hstill := executeScheduledQuery_still m.nextIndex c
      exact ⟨hstill.devices, hstill.rounds, fun _ => hstill.index, fun h => by simp [hrun] at h⟩
    · exact ⟨rfl, rfl, fun _ => rfl, fun h => by simp [hrun] at h⟩
  · rw [if_neg (by simp [hrun])]
    exact ⟨rfl, rfl, fun h => by simp [hrun] at h, fun _ => rfl⟩

theorem turned_frame (m : SerialManager) :
    m.turned.portConfig = m.portConfig ∧ m.turned.index = m.index := by
  unfold SerialManager.turned
  split
  · exact ⟨(skipRound_frame m _).2.1, (skipRound_frame m _).2.2⟩
  · exact ⟨rfl, rfl⟩

/-- What a pass without a control command does to the turn. -/
theorem workerCycle_turn {m : SerialManager} (retryCount : Nat) {c : Cycle}
    (hstatus : m.portConfig.status = true) (hrun : m.currentRun = .primary)
    (hcommand : c.command = none) (hindex : m.index < m.portConfig.devices.length) :
    (m.workerCycle retryCount c).portConfig.devices = m.portConfig.devices ∧
      (m.workerCycle retryCount c).deviceStates.map (·.currentRound) =
        m.turned.deviceStates.map (·.currentRound) ∧
      ((m.workerCycle retryCount c).currentRun = .primary →
        (m.workerCycle retryCount c).index = (m.index + 1) % m.portConfig.devices.length) ∧
      (m.workerCycle retryCount c).index < m.portConfig.devices.length := by
  have hnonempty : m.portConfig.devices.isEmpty = false := by
    rw [List.isEmpty_eq_false_iff, ← List.length_pos_iff]
    omega
  obtain ⟨hstays, hresult⟩ := runPrimaryCycle_turn retryCount hrun hcommand hindex
  obtain ⟨hport, hturn⟩ := turned_frame m
  have hstep : m.workerCycle retryCount c =
      ((m.runPrimaryCycle c).1.receiveAfter retryCount c (m.runPrimaryCycle c).2).advanceIndex c
        (m.runPrimaryCycle c).2 := by
    simp [SerialManager.workerCycle, SerialManager.runCycle, hrun, hstatus, hnonempty]
  rw [hstep]
  generalize (m.runPrimaryCycle c).2 = result at hstays hresult ⊢
  generalize (m.runPrimaryCycle c).1.receiveAfter retryCount c result = m' at hstays ⊢
  obtain ⟨hdevices, hrounds, hnext, hstandby⟩ := advanceIndex_turn (m := m') (c := c) hresult
  rcases hstays with hstill | helse
  · have hdevices' : m'.portConfig.devices = m.portConfig.devices := by rw [hstill.devices, hport]
    have hindex' : m'.index = m.index := by rw [hstill.index, hturn]
    rcases m'.currentRun.eq_primary_or_secondary with hrun' | hrun'
    · have hadvanced := hnext hrun'
      rw [hindex', hdevices'] at hadvanced
      refine ⟨hdevices.trans hdevices', hrounds.trans hstill.rounds, fun _ => hadvanced, ?_⟩
      rw [hadvanced]
      exact Nat.mod_lt _ (by omega)
    · rw [hstandby hrun']
      refine ⟨hdevices', hstill.rounds, fun h => by simp [hrun'] at h, ?_⟩
      rwa [hindex']
  · rw [hstandby helse.run]
    refine ⟨helse.devices.trans (congrArg _ hport), helse.rounds, fun h => ?_, ?_⟩
    · rw [helse.run] at h
      cases h
    · rw [← hport]
      exact helse.bounded

/-- A pass that executes a control command leaves the turn where it is. -/
theorem workerCycle_command {m : SerialManager} (retryCount : Nat) {c : Cycle}
    {command : Bool × List CommandTurn} (hrun : m.currentRun = .primary)
    (hcommand : c.command = some command) : Still m (m.workerCycle retryCount c) := by
  have hstill := (executeCommand_withdraws m command.2).still
  unfold SerialManager.workerCycle
  split_ifs
  · exact Still.rfl
  · simp only [SerialManager.runCycle, hrun, SerialManager.runPrimaryCycle, hcommand,
      SerialManager.receiveAfter, SerialManager.advanceIndex]
    rw [if_neg (by simp)]
    exact hstill

/-! ## Actions -/

theorem setDeviceEnabledAt_still (m : SerialManager) (enabled : Bool) (index : Nat) :
    Still m (m.setDeviceEnabledAt enabled index) := by
  have hset := modifyState_still m index (f := fun s => { s with isEnabled := enabled }) fun _ => rfl
  unfold SerialManager.setDeviceEnabledAt
  split
  · exact Still.rfl
  · dsimp only
    split_ifs
    · exact hset.trans (sendZero_withdraws _ _ _).still
    · exact hset

theorem setDeviceEnabled_still (m : SerialManager) (deviceId : UInt8) (enabled : Bool) :
    Still m (m.setDeviceEnabled deviceId enabled) := by
  unfold SerialManager.setDeviceEnabled
  generalize List.filter _ _ = indexes
  induction indexes generalizing m with
  | nil => exact Still.rfl
  | cons i rest ih => exact (setDeviceEnabledAt_still m enabled i).trans (ih _)

theorem setPortEnabled_still (m : SerialManager) (enabled : Bool) (reopen : Reopen) :
    Still m (m.setPortEnabled enabled reopen) := by
  unfold SerialManager.setPortEnabled
  dsimp only
  split_ifs
  · exact Still.trans (b := { m with portConfig := { m.portConfig with status := enabled } })
      ⟨rfl, rfl, rfl⟩ ((withdraws_connection _ false m.portOfflinePublished []).trans
        (publishAllZero_withdraws _)).still
  · exact Still.trans (b := { m with portConfig := { m.portConfig with status := enabled } })
      ⟨rfl, rfl, rfl⟩ (reconnect_withdraws _ reopen).still
  · exact ⟨rfl, rfl, rfl⟩

theorem restart_still (m : SerialManager) (reopen : Reopen) :
    Still m (m.prepareWorkerRestart.reconnect reopen) :=
  (((withdraws_connection m false m.portOfflinePublished []).trans
    (publishPortOfflineOnce_withdraws _)).trans (reconnect_withdraws _ reopen)).still

theorem roundOf_eq (m : SerialManager) (i : Nat) :
    m.roundOf i = ((m.deviceStates.map (·.currentRound))[i]?).getD 0 := by
  rw [SerialManager.roundOf, List.getElem?_map]

theorem roundOf_of_rounds {m m' : SerialManager}
    (h : m'.deviceStates.map (·.currentRound) = m.deviceStates.map (·.currentRound)) (i : Nat) :
    m'.roundOf i = m.roundOf i := by
  rw [roundOf_eq, roundOf_eq, h]

/-- Starting to read a station clears its counters; nobody else's are touched. -/
theorem setDeviceReadEnabled_turn (m : SerialManager) (deviceId : UInt8) (enabled : Bool) :
    (m.setDeviceReadEnabled deviceId enabled).portConfig.devices = m.portConfig.devices ∧
      (m.setDeviceReadEnabled deviceId enabled).index = m.index ∧
      ∀ i, (m.setDeviceReadEnabled deviceId enabled).backsOff i = true →
        (m.setDeviceReadEnabled deviceId enabled).roundOf i = m.roundOf i := by
  unfold SerialManager.setDeviceReadEnabled
  split
  · exact ⟨rfl, rfl, fun _ _ => rfl⟩
  · rename_i index hindex
    have hset := modifyState_still m index
      (f := fun s => { s with readEnabled := enabled }) fun _ => rfl
    have hzero := hset.trans (sendZero_withdraws (m.modifyState index fun s =>
      { s with readEnabled := enabled }) index
      (m.modifyState index fun s => { s with readEnabled := enabled }).portOpen).still
    dsimp only
    split_ifs
    · refine ⟨hzero.devices, hzero.index, ?_⟩
      generalize (m.modifyState index fun s =>
        { s with readEnabled := enabled }).sendZeroStatusForIndex index _ false = sent at hzero ⊢
      intro i hoff
      rw [← roundOf_of_rounds hzero.rounds]
      simp only [SerialManager.backsOff, SerialManager.roundOf, modifyState_at] at hoff ⊢
      cases hstate : sent.deviceStates[i]? with
      | none => rfl
      | some state =>
        rw [hstate] at hoff
        by_cases hi : index = i
        · simp [hi] at hoff
        · simp [hi]
    · exact ⟨hzero.devices, hzero.index, fun i _ => roundOf_of_rounds hzero.rounds i⟩

/-- What an action that is no turn leaves of the turn. -/
theorem act_no_turn {m : SerialManager} (retryCount : Nat) {a : WorkerAction}
    (hrun : m.currentRun = .primary) (hturn : isTurn (m, a) = false) :
    (m.act retryCount a).portConfig.devices = m.portConfig.devices ∧
      (m.act retryCount a).index = m.index ∧
      ∀ i, (m.act retryCount a).backsOff i = true →
        (m.act retryCount a).roundOf i = m.roundOf i := by
  have hstill : ∀ m', Still m m' → m'.portConfig.devices = m.portConfig.devices ∧
      m'.index = m.index ∧ ∀ i, m'.backsOff i = true → m'.roundOf i = m.roundOf i :=
    fun m' h => ⟨h.devices, h.index, fun i _ => roundOf_of_rounds h.rounds i⟩
  cases a with
  | portStatus enabled reopen => exact hstill _ (setPortEnabled_still m enabled reopen)
  | deviceSetting deviceId enabled => exact hstill _ (setDeviceEnabled_still m deviceId enabled)
  | deviceReadSetting deviceId enabled => exact setDeviceReadEnabled_turn m deviceId enabled
  | queryStationVersion deviceId t => exact hstill _ (performStationVersionQuery_still m deviceId t)
  | restart reopen => exact hstill _ (restart_still m reopen)
  | cycle c =>
    cases hcommand : c.command with
    | none => simp [isTurn, hcommand] at hturn
    | some command => exact hstill _ (workerCycle_command retryCount hrun hcommand)

/-- The counter of skipped turns after a turn of some station. -/
theorem roundOf_turned (m : SerialManager) (i : Nat) :
    m.turned.roundOf i =
      if m.index = i then
        if m.sitsOut i then m.roundOf i + 1 else if m.backsOff i then 0 else m.roundOf i
      else m.roundOf i := by
  unfold SerialManager.turned
  cases hstate : m.deviceStates[m.index]? with
  | none =>
    have hoff : m.backsOff m.index = false := by simp [SerialManager.backsOff, hstate]
    have hsits : m.sitsOut m.index = false := by simp [SerialManager.sitsOut, hoff]
    by_cases hi : m.index = i
    · subst hi
      simp [hsits, hoff]
    · simp [hi]
  | some state =>
    have hoff : m.backsOff m.index = decide (deviceTimeoutSkip < state.timeoutCount) := by
      simp [SerialManager.backsOff, hstate]
    have hround : m.roundOf m.index = state.currentRound := by
      simp [SerialManager.roundOf, hstate]
    by_cases hi : m.index = i
    · subst hi
      simp only [SerialManager.skipRound, SerialManager.sitsOut, hoff, hround, gt_iff_lt, if_true]
      by_cases hcount : deviceTimeoutSkip < state.timeoutCount
      · by_cases hskip : deviceSkipRounds < state.currentRound
        · have hnot : ¬ state.currentRound ≤ deviceSkipRounds := UInt32.not_le.mpr hskip
          simp [SerialManager.roundOf, modifyState_at, hstate, hcount, hskip, hnot]
        · have hle : state.currentRound ≤ deviceSkipRounds := UInt32.not_lt.mp hskip
          simp [SerialManager.roundOf, modifyState_at, hstate, hcount, hskip, hle]
      · simp [hcount, hround]
    · simp only [SerialManager.skipRound, hi, if_false]
      split_ifs
      · simp only [SerialManager.roundOf, modifyState_at, hi, if_false, Option.map_id']
      · simp only [SerialManager.roundOf, modifyState_at, hi, if_false, Option.map_id']
      · rfl

/-- What a turn does to the turn and to the counters of skipped turns. -/
theorem act_turn {m : SerialManager} (retryCount : Nat) {a : WorkerAction}
    (hstatus : m.portConfig.status = true) (hrun : m.currentRun = .primary)
    (hindex : m.index < m.portConfig.devices.length) (hturn : isTurn (m, a) = true) :
    (m.act retryCount a).portConfig.devices = m.portConfig.devices ∧
      ((m.act retryCount a).currentRun = .primary →
        (m.act retryCount a).index = (m.index + 1) % m.portConfig.devices.length) ∧
      (m.act retryCount a).index < m.portConfig.devices.length ∧
      ∀ i, (m.act retryCount a).roundOf i = m.turned.roundOf i := by
  cases a with
  | cycle c =>
    have hcommand : c.command = none := by simpa [isTurn] using hturn
    obtain ⟨hdevices, hrounds, hnext, hbounded⟩ :=
      workerCycle_turn retryCount hstatus hrun hcommand hindex
    exact ⟨hdevices, hnext, hbounded, roundOf_of_rounds hrounds⟩
  | portStatus _ _ => cases hturn
  | deviceSetting _ _ => cases hturn
  | deviceReadSetting _ _ => cases hturn
  | queryStationVersion _ _ => cases hturn
  | restart _ => cases hturn

/-! ## Every state -/

/-- The stations stay the same, and the turn is one of them. -/
structure Bounded (m m' : SerialManager) : Prop where
  devices : m'.portConfig.devices = m.portConfig.devices
  index : m.index < m.portConfig.devices.length → m'.index < m.portConfig.devices.length

theorem Still.bounded {m m' : SerialManager} (h : Still m m') : Bounded m m' :=
  ⟨h.devices, fun hindex => h.index ▸ hindex⟩

theorem Bounded.trans {a b c : SerialManager} (hab : Bounded a b) (hbc : Bounded b c) :
    Bounded a c where
  devices := hbc.devices.trans hab.devices
  index := by
    intro hindex
    rw [← hab.devices]
    refine hbc.index ?_
    rw [hab.devices]
    exact hab.index hindex

theorem receiveData_bounded (m : SerialManager) (turns : List Turn) (reopen : Reopen) :
    Bounded m (m.receiveData turns reopen) := by
  have hattempt : Bounded m (m.receiveDataAttempt turns reopen).1 := by
    rcases receiveDataAttempt_stays m turns reopen with hstill | ⟨helse, -⟩
    · exact hstill.bounded
    · exact ⟨helse.devices, fun _ => helse.bounded⟩
  unfold SerialManager.receiveData
  split
  · rename_i m' failure heq
    rw [heq] at hattempt
    exact hattempt.trans (commitQueryFailure_still m' failure true).bounded
  · rename_i m' out _ heq
    rw [heq] at hattempt
    exact hattempt

theorem advanceIndex_bounded (m : SerialManager) (c : Cycle) (result : CycleResult) :
    Bounded m (m.advanceIndex c result) := by
  have hnext : Bounded m m.nextIndex := by
    refine ⟨rfl, fun hindex => Nat.mod_lt _ ?_⟩
    exact Nat.lt_of_le_of_lt (Nat.zero_le _) hindex
  unfold SerialManager.advanceIndex
  split_ifs
  · exact hnext.trans (executeScheduledQuery_still _ c).bounded
  · exact hnext
  · exact Still.rfl.bounded

theorem workerCycle_standby {m : SerialManager} (retryCount : Nat) (c : Cycle)
    (hrun : m.currentRun = .secondary) : Bounded m (m.workerCycle retryCount c) := by
  have hcycle : Still m (m.runSecondaryCycle c).1 := by
    unfold SerialManager.runSecondaryCycle
    split
    · exact (executeCommand_withdraws m _).still
    · exact (executeCommand_withdraws m _).still
    · exact Still.rfl
  have hquiet : (m.runSecondaryCycle c).2 ≠ .querySent := by
    unfold SerialManager.runSecondaryCycle
    split <;> exact nofun
  unfold SerialManager.workerCycle
  split_ifs
  · exact Still.rfl.bounded
  · simp only [SerialManager.runCycle, hrun]
    generalize m.runSecondaryCycle c = done at hcycle hquiet ⊢
    have hafter : Bounded done.1 (done.1.receiveAfter retryCount c done.2) := by
      unfold SerialManager.receiveAfter
      split
      · rename_i heq
        exact absurd heq hquiet
      · exact receiveData_bounded done.1 c.listen c.listenReopen
      · exact Still.rfl.bounded
      · exact Still.rfl.bounded
    exact hcycle.bounded.trans (hafter.trans (advanceIndex_bounded _ c _))

theorem workerCycle_bounded (m : SerialManager) (retryCount : Nat) (c : Cycle) :
    Bounded m (m.workerCycle retryCount c) := by
  rcases m.currentRun.eq_primary_or_secondary with hrun | hrun
  · cases hcommand : c.command with
    | some command => exact (workerCycle_command retryCount hrun hcommand).bounded
    | none =>
      cases hstatus : m.portConfig.status with
      | false =>
        have hoff : m.workerCycle retryCount c = m := by simp [SerialManager.workerCycle, hstatus]
        rw [hoff]
        exact Still.rfl.bounded
      | true =>
        rcases Nat.lt_or_ge m.index m.portConfig.devices.length with hindex | hindex
        · obtain ⟨hdevices, -, -, hbounded⟩ :=
            workerCycle_turn retryCount hstatus hrun hcommand hindex
          exact ⟨hdevices, fun _ => hbounded⟩
        · unfold SerialManager.workerCycle
          split_ifs
          · exact Still.rfl.bounded
          · simp only [SerialManager.runCycle, hrun, SerialManager.runPrimaryCycle, hcommand,
              List.getElem?_eq_none hindex]
            exact advanceIndex_bounded m c .idle
  · exact workerCycle_standby retryCount c hrun

theorem act_bounded (m : SerialManager) (retryCount : Nat) (a : WorkerAction) :
    Bounded m (m.act retryCount a) := by
  cases a with
  | portStatus enabled reopen => exact (setPortEnabled_still m enabled reopen).bounded
  | deviceSetting deviceId enabled => exact (setDeviceEnabled_still m deviceId enabled).bounded
  | deviceReadSetting deviceId enabled =>
    obtain ⟨hdevices, hindex, -⟩ := setDeviceReadEnabled_turn m deviceId enabled
    exact ⟨hdevices, fun h => hindex ▸ h⟩
  | queryStationVersion deviceId t => exact (performStationVersionQuery_still m deviceId t).bounded
  | restart reopen => exact (restart_still m reopen).bounded
  | cycle c => exact workerCycle_bounded m retryCount c

/-! ## Runs -/

theorem run_bounded (retryCount : Nat) (m : SerialManager) (actions : List WorkerAction) :
    Bounded m (actions.foldl (SerialManager.act retryCount) m) := by
  induction actions generalizing m with
  | nil => exact Still.rfl.bounded
  | cons a actions ih => exact (act_bounded m retryCount a).trans (ih _)

/-- The steps of a run, cut in two. -/
theorem steps_split {retryCount : Nat} {m : SerialManager} {actions : List WorkerAction}
    {front back : List (SerialManager × WorkerAction)}
    (h : m.steps retryCount actions = front ++ back) :
    ∃ as bs, actions = as ++ bs ∧ m.steps retryCount as = front ∧
      (as.foldl (SerialManager.act retryCount) m).steps retryCount bs = back := by
  induction front generalizing m actions with
  | nil => exact ⟨[], actions, rfl, rfl, h⟩
  | cons s front ih =>
    cases actions with
    | nil => cases h
    | cons a actions =>
      obtain ⟨rfl, hrest⟩ := List.cons.inj h
      obtain ⟨as, bs, rfl, rfl, hback⟩ := ih hrest
      exact ⟨a :: as, bs, rfl, rfl, hback⟩

theorem steps_cons {retryCount : Nat} {m : SerialManager} {actions : List WorkerAction}
    {s : SerialManager × WorkerAction} {back : List (SerialManager × WorkerAction)}
    (h : m.steps retryCount actions = s :: back) :
    s.1 = m ∧ ∃ bs, (s.1.act retryCount s.2).steps retryCount bs = back := by
  cases actions with
  | nil => cases h
  | cons a actions =>
    obtain ⟨rfl, hrest⟩ := List.cons.inj h
    exact ⟨rfl, actions, hrest⟩

theorem steps_bounded {retryCount : Nat} {m : SerialManager} {actions : List WorkerAction}
    (hindex : m.index < m.portConfig.devices.length) :
    ∀ s ∈ m.steps retryCount actions, s.1.portConfig.devices = m.portConfig.devices ∧
      s.1.index < m.portConfig.devices.length := by
  intro s hs
  obtain ⟨front, back, hsplit⟩ := List.append_of_mem hs
  obtain ⟨as, bs, -, -, hback⟩ := steps_split hsplit
  have hrun := run_bounded retryCount m as
  rw [(steps_cons hback).1]
  exact ⟨hrun.devices, hrun.index hindex⟩

/-- An enabled port with stations that stays a primary. -/
structure Polling (stations : Nat) (steps : List (SerialManager × WorkerAction)) : Prop where
  primary : ∀ s ∈ steps, s.1.portConfig.status = true ∧ s.1.currentRun = .primary
  stations : ∀ s ∈ steps, s.1.portConfig.devices.length = stations ∧ s.1.index < stations

theorem Polling.tail {stations : Nat} (front : List (SerialManager × WorkerAction))
    {back : List (SerialManager × WorkerAction)} (h : Polling stations (front ++ back)) :
    Polling stations back :=
  ⟨fun s hs => h.primary s (List.mem_append_right _ hs),
    fun s hs => h.stations s (List.mem_append_right _ hs)⟩

/-- The state a run starts in is the state of its first step. -/
theorem steps_head {retryCount : Nat} {m : SerialManager} {actions : List WorkerAction}
    {between back : List (SerialManager × WorkerAction)} {y : SerialManager × WorkerAction}
    (h : m.steps retryCount actions = between ++ y :: back) : ∃ s ∈ between ++ [y], s.1 = m := by
  cases between with
  | nil => exact ⟨y, by simp, (steps_cons h).1⟩
  | cons s between => exact ⟨s, by simp, (steps_cons h).1⟩

/-- The turn does not move between two turns. -/
theorem index_of_no_turn {retryCount stations : Nat} {m : SerialManager}
    {actions : List WorkerAction} {between back : List (SerialManager × WorkerAction)}
    {y : SerialManager × WorkerAction}
    (h : m.steps retryCount actions = between ++ y :: back)
    (hpolling : Polling stations (between ++ y :: back))
    (hbetween : ∀ s ∈ between, isTurn s = false) : y.1.index = m.index := by
  induction between generalizing m actions with
  | nil => rw [(steps_cons h).1]
  | cons s between ih =>
    obtain ⟨rfl, bs, hrest⟩ := steps_cons h
    have hprimary := hpolling.primary s (by simp)
    obtain ⟨-, hindex, -⟩ := act_no_turn retryCount hprimary.2 (hbetween s (by simp))
    have hrest' : Polling stations (between ++ y :: back) := Polling.tail [s] hpolling
    rw [ih hrest hrest' fun t ht => hbetween t (List.mem_cons_of_mem _ ht), hindex]

/-- While a station sits out its turns, every one of them is counted; the last one is counted as the
eleventh at most. -/
theorem roundOf_of_skipped {retryCount stations i : Nat} {m : SerialManager}
    {actions : List WorkerAction} {between back : List (SerialManager × WorkerAction)}
    {y : SerialManager × WorkerAction}
    (h : m.steps retryCount actions = between ++ y :: back)
    (hpolling : Polling stations (between ++ y :: back))
    (hskipped : ∀ s ∈ between, turnOf i s = true → s.1.sitsOut i = true)
    (hfailing : ∀ s ∈ between ++ [y], s.1.backsOff i = true) :
    (y.1.roundOf i).toNat = (m.roundOf i).toNat + (between.filter (turnOf i)).length ∧
      ((between.filter (turnOf i)).length = 0 ∨ (y.1.roundOf i).toNat ≤ 11) := by
  induction between generalizing m actions with
  | nil =>
    rw [(steps_cons h).1]
    exact ⟨rfl, .inl rfl⟩
  | cons s between ih =>
    obtain ⟨rfl, bs, hrest⟩ := steps_cons h
    obtain ⟨hstatus, hrun⟩ := hpolling.primary s (by simp)
    obtain ⟨hstations, hindex⟩ := hpolling.stations s (by simp)
    have hrest' : Polling stations (between ++ y :: back) := Polling.tail [s] hpolling
    have hfailing' : ∀ t ∈ between ++ [y], t.1.backsOff i = true :=
      fun t ht => hfailing t (List.mem_cons_of_mem _ ht)
    obtain ⟨hcount, hbound⟩ :=
      ih hrest hrest' (fun t ht => hskipped t (List.mem_cons_of_mem _ ht)) hfailing'
    cases hturn : turnOf i s with
    | true =>
      obtain ⟨hslot, hi⟩ := Bool.and_eq_true_iff.mp hturn
      have hsits := hskipped s (by simp) hturn
      obtain ⟨-, -, -, hround⟩ := act_turn retryCount hstatus hrun (hstations ▸ hindex) hslot
      have hle : s.1.roundOf i ≤ deviceSkipRounds := by
        simpa [SerialManager.sitsOut] using (Bool.and_eq_true_iff.mp hsits).2
      have hsmall := UInt32.le_iff_toNat_le.mp hle
      have hten : deviceSkipRounds.toNat = 10 := rfl
      have hone : (s.1.roundOf i + 1).toNat = (s.1.roundOf i).toNat + 1 := by
        rw [UInt32.toNat_add, UInt32.toNat_one]
        omega
      rw [hround, roundOf_turned, if_pos (beq_iff_eq.mp hi), if_pos hsits, hone] at hcount
      rw [List.filter_cons_of_pos hturn, List.length_cons]
      constructor
      · omega
      · rcases hbound with hnone | hbound
        · exact .inr (by omega)
        · exact .inr hbound
    | false =>
      have hsame : (s.1.act retryCount s.2).roundOf i = s.1.roundOf i := by
        cases hslot : isTurn s with
        | false =>
          obtain ⟨-, -, hround⟩ := act_no_turn retryCount hrun hslot
          obtain ⟨t, ht, hnext⟩ := steps_head hrest
          exact hround i (hnext ▸ hfailing' t ht)
        | true =>
          obtain ⟨-, -, -, hround⟩ := act_turn retryCount hstatus hrun (hstations ▸ hindex) hslot
          have hi : s.1.index ≠ i := by simpa [turnOf, hslot] using hturn
          rw [hround, roundOf_turned, if_neg hi]
      rw [hsame] at hcount
      rw [List.filter_cons_of_neg (by simp [hturn])]
      exact ⟨hcount, hbound⟩

/-- The turns that a station sits out before it gets another one. -/
theorem gap_length {retryCount stations i : Nat} {m : SerialManager} {actions : List WorkerAction}
    {x y : SerialManager × WorkerAction} {between : List (SerialManager × WorkerAction)}
    (hpolling : Polling stations (m.steps retryCount actions))
    (h : Gap i (m.steps retryCount actions) x between y) :
    (between.filter (turnOf i)).length =
      11 - if x.1.backsOff i then 0 else (x.1.roundOf i).toNat := by
  obtain ⟨before, after, hsplit⟩ := h.split
  obtain ⟨as, bs, -, -, hback⟩ := steps_split hsplit
  obtain ⟨-, cs, hrest⟩ := steps_cons hback
  rw [hsplit] at hpolling
  have hfrom : Polling stations (x :: (between ++ y :: after)) := Polling.tail before hpolling
  have hpolling' : Polling stations (between ++ y :: after) := Polling.tail [x] hfrom
  obtain ⟨hstatus, hrun⟩ := hfrom.primary x (by simp)
  obtain ⟨hstations, hindex⟩ := hfrom.stations x (by simp)
  obtain ⟨hslot, hi⟩ := Bool.and_eq_true_iff.mp h.first.1
  -- the counter behind the first of the two turns
  have hstart : ((x.1.act retryCount x.2).roundOf i).toNat =
      if x.1.backsOff i then 0 else (x.1.roundOf i).toNat := by
    obtain ⟨-, -, -, hround⟩ := act_turn retryCount hstatus hrun (hstations ▸ hindex) hslot
    rw [hround, roundOf_turned, if_pos (beq_iff_eq.mp hi), if_neg (by simp [h.first.2])]
    split_ifs <;> rfl
  obtain ⟨hcount, hbound⟩ := roundOf_of_skipped hrest hpolling' h.skipped h.failing
  rw [hstart] at hcount
  -- the counter before the second one
  have hlast : 10 < (y.1.roundOf i).toNat := by
    have hfailing := h.failing y (by simp)
    have hsits := h.last.2
    simp only [SerialManager.sitsOut, hfailing, Bool.true_and, decide_eq_false_iff_not,
      UInt32.not_le] at hsits
    exact UInt32.lt_iff_toNat_lt.mp hsits
  generalize (if x.1.backsOff i then 0 else (x.1.roundOf i).toNat) = start at hcount ⊢
  rcases hbound with hnone | hbound
  · omega
  · omega

/-- A station that gets another turn in spite of its failures has started with one skipped turn left
over from an earlier time. -/
def HeadStart (steps : List (SerialManager × WorkerAction)) : Prop :=
  ∀ i x between y, Gap i steps x between y → x.1.backsOff i = false ∧ x.1.roundOf i = 1

theorem gap_length_iff {retryCount stations i : Nat} {m : SerialManager}
    {actions : List WorkerAction} {x y : SerialManager × WorkerAction}
    {between : List (SerialManager × WorkerAction)}
    (hpolling : Polling stations (m.steps retryCount actions))
    (h : Gap i (m.steps retryCount actions) x between y) :
    (between.filter (turnOf i)).length = deviceSkipRounds.toNat ↔
      x.1.backsOff i = false ∧ x.1.roundOf i = 1 := by
  have hten : deviceSkipRounds.toNat = 10 := rfl
  rw [gap_length hpolling h, hten, ← UInt32.toNat_inj, UInt32.toNat_one]
  cases x.1.backsOff i with
  | true => simp
  | false =>
    simp only [Bool.false_eq_true, if_false, true_and]
    omega

/-- Every state of a port that was started with some stations. -/
theorem reached_bounded {portConfig : SerialPortConfig} {runOn started : RunLocation}
    {opened : Bool} {retryCount : Nat} {earlier : List WorkerAction} {m : SerialManager}
    (hstations : portConfig.devices ≠ [])
    (hreached : Lib.Run.exec (SerialManager.step retryCount)
      (newManager portConfig runOn started opened) earlier = some m) :
    m.portConfig.devices = portConfig.devices ∧ m.index < m.portConfig.devices.length := by
  have hnew : Still (freshManager portConfig runOn started opened)
      (newManager portConfig runOn started opened) := by
    unfold newManager
    split_ifs
    · exact (publishPortOfflineOnce_withdraws _).still
    · exact (publishAllZero_withdraws _).still
    · exact Still.rfl
  rw [exec_step] at hreached
  obtain rfl := Option.some.inj hreached
  have hrun := hnew.bounded.trans (run_bounded retryCount _ earlier)
  refine ⟨hrun.devices, ?_⟩
  rw [hrun.devices]
  exact hrun.index (List.length_pos_iff.mpr hstations)

/-- The order of the turns is right in every run. The number of turns that a failing station sits
out is right if and only if the station never sits out a window from its beginning. -/
theorem roundRobin_iff (portConfig : SerialPortConfig) (runOn started : RunLocation)
    (opened : Bool) (retryCount : Nat) (earlier actions : List WorkerAction) (m : SerialManager)
    (hstations : portConfig.devices ≠ [])
    (hreached : Lib.Run.exec (SerialManager.step retryCount)
      (newManager portConfig runOn started opened) earlier = some m)
    (hprimary : ∀ s ∈ m.steps retryCount actions,
      s.1.portConfig.status = true ∧ s.1.currentRun = .primary) :
    RoundRobin portConfig.devices.length (m.steps retryCount actions) ↔
      HeadStart (m.steps retryCount actions) := by
  obtain ⟨hdevices, hindex⟩ := reached_bounded hstations hreached
  have hpolling : Polling portConfig.devices.length (m.steps retryCount actions) := by
    refine ⟨hprimary, fun s hs => ?_⟩
    obtain ⟨hdevices', hindex'⟩ := steps_bounded hindex s hs
    rw [hdevices', hdevices]
    exact ⟨rfl, hdevices ▸ hindex'⟩
  constructor
  · intro h i x between y hgap
    exact (gap_length_iff hpolling hgap).mp (h.backOff i x between y hgap)
  · intro h
    refine ⟨fun s hs => (hpolling.stations s hs).2, ?_, ?_⟩
    · intro before x between y after hsplit hx hy hbetween
      obtain ⟨as, bs, -, -, hback⟩ := steps_split hsplit
      obtain ⟨-, cs, hrest⟩ := steps_cons hback
      rw [hsplit] at hpolling
      have hfrom := Polling.tail before hpolling
      have hpolling' : Polling portConfig.devices.length (between ++ y :: after) :=
        Polling.tail [x] hfrom
      obtain ⟨hstatus, hrun⟩ := hfrom.primary x (by simp)
      obtain ⟨hcount, hturn⟩ := hfrom.stations x (by simp)
      obtain ⟨-, hnext, -, -⟩ := act_turn retryCount hstatus hrun (hcount ▸ hturn) hx
      obtain ⟨t, ht, hstate⟩ := steps_head hrest
      have hrun' : (x.1.act retryCount x.2).currentRun = .primary := by
        rw [← hstate]
        refine (hpolling'.primary t ?_).2
        rcases List.mem_append.mp ht with ht | ht
        · exact List.mem_append_left _ ht
        · rw [List.mem_singleton.mp ht]
          simp
      rw [index_of_no_turn hrest hpolling' hbetween, hnext hrun', hcount]
    · intro i x between y hgap
      exact (gap_length_iff hpolling hgap).mpr (h i x between y hgap)

/-! ## A station that never answers -/

theorem steps_append (retryCount : Nat) (m : SerialManager) (as bs : List WorkerAction) :
    m.steps retryCount (as ++ bs) =
      m.steps retryCount as ++ (as.foldl (SerialManager.act retryCount) m).steps retryCount bs := by
  induction as generalizing m with
  | nil => rfl
  | cons a as ih => exact congrArg ((m, a) :: ·) (ih _)

def silentPasses (n : Nat) : List WorkerAction := List.replicate n (listening [])

/-- A primary with one station, after some passes without an answer. -/
def silentAfter (n : Nat) : SerialManager :=
  (silentPasses n).foldl (SerialManager.act 0) (newManager samplePort .primary .primary true)

theorem silentAfter_add (n k : Nat) :
    (silentPasses k).foldl (SerialManager.act 0) (silentAfter n) = silentAfter (n + k) := by
  rw [silentAfter, silentAfter, ← List.foldl_append, silentPasses, silentPasses, silentPasses,
    List.replicate_append_replicate]

theorem silentAfter_succ (n : Nat) : (silentAfter n).act 0 (listening []) = silentAfter (n + 1) :=
  silentAfter_add n 1

/-- The station is queried in the fourth pass and in the sixteenth. -/
theorem silentAfter_gap :
    Gap 0 ((silentAfter 0).steps 0
        (silentPasses 3 ++ listening [] :: (silentPasses 11 ++ [listening []])))
      (silentAfter 3, listening []) ((silentAfter 4).steps 0 (silentPasses 11))
      (silentAfter 15, listening []) where
  split := by
    refine ⟨(silentAfter 0).steps 0 (silentPasses 3), [], ?_⟩
    rw [steps_append, SerialManager.steps, steps_append, silentAfter_add, silentAfter_succ,
      silentAfter_add, SerialManager.steps, SerialManager.steps]
  first := by decide +kernel
  last := by decide +kernel
  skipped := by
    have hall : ((silentAfter 4).steps 0 (silentPasses 11)).all
        (fun s => s.1.sitsOut 0) = true := by decide +kernel
    exact fun s hs _ => List.all_eq_true.mp hall s hs
  failing := by
    have hall : ((silentAfter 4).steps 0 (silentPasses 11) ++ [(silentAfter 15, listening [])]).all
        (fun s => s.1.backsOff 0) = true := by decide +kernel
    exact fun s hs => List.all_eq_true.mp hall s hs

theorem eleven_turns_out :
    ¬ ∀ (portConfig : SerialPortConfig) (runOn started : RunLocation) (opened : Bool)
        (retryCount : Nat) (earlier actions : List WorkerAction) (m : SerialManager),
        portConfig.devices ≠ [] →
        Lib.Run.exec (SerialManager.step retryCount)
          (newManager portConfig runOn started opened) earlier = some m →
        (∀ s ∈ m.steps retryCount actions,
          s.1.portConfig.status = true ∧ s.1.currentRun = .primary) →
        RoundRobin portConfig.devices.length (m.steps retryCount actions) := by
  intro h
  have hall : ((silentAfter 0).steps 0
      (silentPasses 3 ++ listening [] :: (silentPasses 11 ++ [listening []]))).all
      (fun s => s.1.portConfig.status && s.1.currentRun == .primary) = true := by decide +kernel
  have hrobin := h samplePort .primary .primary true 0 [] _ (silentAfter 0) (by simp [samplePort]) rfl
    fun s hs => by simpa using List.all_eq_true.mp hall s hs
  have hcount := hrobin.backOff 0 _ _ _ silentAfter_gap
  exact absurd hcount (by decide +kernel)

/-- Before the station has failed too often there is nothing to wait for. -/
theorem roundRobin_sample :
    RoundRobin 1 ((silentAfter 0).steps 0 (silentPasses 2)) ↔
      HeadStart ((silentAfter 0).steps 0 (silentPasses 2)) := by
  have hall : ((silentAfter 0).steps 0 (silentPasses 2)).all
      (fun s => s.1.portConfig.status && s.1.currentRun == .primary) = true := by decide +kernel
  exact roundRobin_iff samplePort .primary .primary true 0 [] (silentPasses 2) (silentAfter 0)
    (by simp [samplePort]) rfl fun s hs => by simpa using List.all_eq_true.mp hall s hs

end RcdServer.Serial
