import RcdServer.Serial.Worker

/-!
# Roles: no second master while the primary is heard

The role logic by itself is a small machine over four fields of the manager. Its moves
carry the guards the code checks. Every pass of the worker is a sequence of such moves,
as long as no valid forwarded frame reaches a station that is not read; the properties
of runs are then invariants of the machine.
-/
namespace RcdServer.Serial

open Protocol

/-! ## The role machine -/

structure Roles where
  runOn : RunLocation
  currentRun : RunLocation
  timeOutCount : UInt32
  log : List Event

def SerialManager.roles (m : SerialManager) : Roles :=
  ⟨m.runOn, m.currentRun, m.timeOutCount, m.log⟩

/-- Failures since the last change of role or the last valid forwarded frame, whichever is later. -/
def failuresSince : List Event → Nat
  | [] => 0
  | .switched _ :: _ => 0
  | .forwarded :: _ => 0
  | .failed :: older => failuresSince older + 1
  | .published _ :: older => failuresSince older
  | .header _ :: older => failuresSince older
  | .queried _ :: older => failuresSince older

/-- What the role logic can do at a time. -/
inductive RoleMove : Roles → Roles → Prop
  | publish (r : Roles) (new : List Event) (h : ∀ e ∈ new, ∃ s, e = .published s) :
      RoleMove r { r with log := new ++ r.log }
  | query (r : Roles) (id : UInt8) (h : r.currentRun = .primary) :
      RoleMove r { r with log := .queried id :: r.log }
  | fail (r : Roles) :
      RoleMove r { r with timeOutCount := r.timeOutCount + 1, log := .failed :: r.log }
  | promote (r : Roles) (hcount : portFailoverTimeout < r.timeOutCount)
      (hrun : r.currentRun = .secondary) (hon : r.runOn = .secondary) :
      RoleMove r
        { r with currentRun := .primary, timeOutCount := 0, log := .switched .primary :: r.log }
  | demote (r : Roles) (hrun : r.currentRun = .primary) (hon : r.runOn = .secondary) :
      RoleMove r
        { r with currentRun := .secondary, timeOutCount := 0, log := .switched .secondary :: r.log }
  /-- A temporary primary hears the real one. -/
  | yield (r : Roles) (hrun : r.currentRun = .primary) (hon : r.runOn = .secondary) :
      RoleMove r
        { r with
          currentRun := .secondary
          timeOutCount := 0
          log := .switched .secondary :: .header .primary :: r.log }
  | hear (r : Roles) (hrun : r.currentRun = .secondary) :
      RoleMove r { r with log := .header .secondary :: r.log }
  /-- A valid forwarded frame; the counter is clear afterwards. -/
  | forwarded (r : Roles) (hrun : r.currentRun = .secondary) :
      RoleMove r { r with timeOutCount := 0, log := .forwarded :: r.log }
  /-- A valid direct answer. -/
  | answered (r : Roles) : RoleMove r { r with timeOutCount := 0 }

abbrev RoleMoves := Relation.ReflTransGen RoleMove

/-! ## Invariants of the machine -/

/-- A header heard as a primary, with no return to standby after it. -/
def unanswered : List Event → Bool
  | [] => false
  | .switched .secondary :: _ => false
  | .header .primary :: _ => true
  | _ :: older => unanswered older

/-- Every promotion in the log comes after more than the threshold of failures in a row. -/
def PromotionsEarned : List Event → Prop
  | [] => True
  | .switched .primary :: older => portFailoverTimeout.toNat < failuresSince older ∧ PromotionsEarned older
  | _ :: older => PromotionsEarned older

/-- No query in the log follows an unanswered header. -/
def QueriesYield : List Event → Prop
  | [] => True
  | .queried _ :: older => unanswered older = false ∧ QueriesYield older
  | _ :: older => QueriesYield older

/-- The part of the log that concerns a port configured as a standby. -/
structure StandbyInv (r : Roles) : Prop where
  counted : r.timeOutCount.toNat ≤ failuresSince r.log
  earned : PromotionsEarned r.log
  settled : unanswered r.log = false
  yields : QueriesYield r.log

/-- A configured primary keeps its role. -/
structure PrimaryInv (r : Roles) : Prop where
  on : r.runOn = .primary
  run : r.currentRun = .primary
  never : ∀ role, Event.switched role ∉ r.log

theorem published_append {new : List Event} (older : List Event) (h : ∀ e ∈ new, ∃ s, e = Event.published s) :
    failuresSince (new ++ older) = failuresSince older ∧
      (PromotionsEarned (new ++ older) ↔ PromotionsEarned older) ∧
      unanswered (new ++ older) = unanswered older ∧
      (QueriesYield (new ++ older) ↔ QueriesYield older) := by
  induction new with
  | nil => simp
  | cons e new ih =>
    obtain ⟨s, rfl⟩ := h e (by simp)
    exact ih fun e he => h e (by simp [he])

theorem RoleMove.standbyInv {r r' : Roles} (h : RoleMove r r') (hinv : StandbyInv r) :
    StandbyInv r' := by
  cases h with
  | publish new hnew =>
    obtain ⟨hcount, hearned, hsettled, hyields⟩ := published_append r.log hnew
    exact ⟨by rw [hcount]; exact hinv.counted, hearned.mpr hinv.earned,
      hsettled.trans hinv.settled, hyields.mpr hinv.yields⟩
  | query id hrun => exact ⟨hinv.counted, hinv.earned, hinv.settled, hinv.settled, hinv.yields⟩
  | fail =>
    refine ⟨?_, hinv.earned, hinv.settled, hinv.yields⟩
    have hcounted := hinv.counted
    show (r.timeOutCount + 1).toNat ≤ failuresSince r.log + 1
    rw [UInt32.toNat_add]
    exact (Nat.mod_le _ _).trans (by simpa using hcounted)
  | promote hcount hrun hon =>
    have hearned : portFailoverTimeout.toNat < failuresSince r.log :=
      lt_of_lt_of_le (UInt32.lt_iff_toNat_lt.mp hcount) hinv.counted
    exact ⟨Nat.zero_le _, ⟨hearned, hinv.earned⟩, hinv.settled, hinv.yields⟩
  | demote hrun hon => exact ⟨Nat.zero_le _, hinv.earned, rfl, hinv.yields⟩
  | yield hrun hon => exact ⟨Nat.zero_le _, hinv.earned, rfl, hinv.yields⟩
  | hear hrun => exact ⟨hinv.counted, hinv.earned, hinv.settled, hinv.yields⟩
  | forwarded hrun => exact ⟨Nat.zero_le _, hinv.earned, hinv.settled, hinv.yields⟩
  | answered => exact ⟨Nat.zero_le _, hinv.earned, hinv.settled, hinv.yields⟩

theorem RoleMove.primaryInv {r r' : Roles} (h : RoleMove r r') (hinv : PrimaryInv r) :
    PrimaryInv r' := by
  obtain ⟨hon, hrun, hnever⟩ := hinv
  cases h with
  | publish new hnew =>
    refine ⟨hon, hrun, ?_⟩
    intro role hmem
    rcases List.mem_append.mp hmem with hmem | hmem
    · obtain ⟨s, hs⟩ := hnew _ hmem
      cases hs
    · exact hnever role hmem
  | query id hq => exact ⟨hon, hrun, by simpa using hnever⟩
  | fail => exact ⟨hon, hrun, by simpa using hnever⟩
  | promote hcount hs hon' => rw [hon] at hon'; cases hon'
  | demote hs hon' => rw [hon] at hon'; cases hon'
  | yield hs hon' => rw [hon] at hon'; cases hon'
  | hear hs => rw [hrun] at hs; cases hs
  | forwarded hs => rw [hrun] at hs; cases hs
  | answered => exact ⟨hon, hrun, hnever⟩

/-! ## The manager follows the machine -/

theorem moves_of_withdraws {m m' : SerialManager} (h : Withdraws m m') :
    RoleMoves m.roles m'.roles := by
  obtain ⟨lost, hlog, hlost⟩ := h.log
  have hroles : m'.roles = { m.roles with log := lost ++ m.roles.log } := by
    simp only [SerialManager.roles, h.runOn, h.currentRun, h.timeOutCount, hlog]
  rw [hroles]
  refine .single (.publish _ lost ?_)
  intro e he
  obtain ⟨s, hs, -⟩ := hlost e he
  exact ⟨s, hs⟩

theorem moves_of_roles_eq {m mid m' : SerialManager} (h : Withdraws mid m')
    (hroles : mid.roles = m.roles) : RoleMoves m.roles m'.roles := by
  rw [← hroles]
  exact moves_of_withdraws h

theorem promoteIfSilent_moves (m : SerialManager) : RoleMoves m.roles m.promoteIfSilent.roles := by
  unfold SerialManager.promoteIfSilent
  split_ifs with h
  · exact .single (.promote m.roles h.1 h.2.1 h.2.2)
  · exact .refl

theorem countTimeOut_moves (m : SerialManager) : RoleMoves m.roles m.countTimeOut.roles :=
  .single (.fail m.roles)

theorem handleUnattributedFrame_moves (m : SerialManager) :
    RoleMoves m.roles m.handleUnattributedFrame.roles :=
  .trans (countTimeOut_moves { m with parseFailCount := m.parseFailCount + 1 })
    (promoteIfSilent_moves _)

theorem demoteIfUnreadable_moves (m : SerialManager) :
    RoleMoves m.roles m.demoteIfUnreadable.roles := by
  unfold SerialManager.demoteIfUnreadable
  split_ifs with h
  · exact .single (.demote m.roles h.2.1 h.2.2)
  · exact .refl

theorem handleDeviceFailure_moves (m : SerialManager) (comStatus : Bool) :
    RoleMoves m.roles (m.handleDeviceFailure comStatus).roles := by
  unfold SerialManager.handleDeviceFailure
  generalize hcounted : m.modifyState m.index _ = counted
  have hroles : m.roles = counted.roles := by rw [← hcounted]; rfl
  rw [hroles]
  refine .trans (.trans (countTimeOut_moves counted) ?_) (promoteIfSilent_moves _)
  exact moves_of_withdraws (sendZero_withdraws _ _ comStatus)

theorem handleInvalidFrame_moves (m : SerialManager) (comStatus : Bool) :
    RoleMoves m.roles (m.handleInvalidFrame comStatus).roles := by
  unfold SerialManager.handleInvalidFrame
  generalize hcounted : m.modifyState m.index _ = counted
  have hroles : m.roles = counted.roles := by rw [← hcounted]; rfl
  rw [hroles]
  exact .trans (handleDeviceFailure_moves { counted with parseFailCount := counted.parseFailCount + 1 }
    comStatus) (demoteIfUnreadable_moves _)

theorem commitQueryFailure_moves (m : SerialManager) (failure : QueryFailure) (comStatus : Bool) :
    RoleMoves m.roles (m.commitQueryFailure failure comStatus).roles := by
  cases failure with
  | readTimeout => exact handleDeviceFailure_moves m comStatus
  | badFrame reason frame => exact handleInvalidFrame_moves m comStatus

theorem heard_moves {m : SerialManager} {raw : List UInt8} {start i : Nat}
    (h : m.forwardedFrom raw = some (start, i)) : RoleMoves m.roles (m.heard i).roles := by
  rcases m.currentRun.eq_primary_or_secondary with hrun | hrun
  · have hon : m.runOn = .secondary := by
      simpa [hrun] using SerialManager.forwardedFrom_standby h
    have hroles : (m.heard i).roles = { m.roles with
        currentRun := .secondary
        timeOutCount := 0
        log := .switched .secondary :: .header .primary :: m.roles.log } := by
      simp [SerialManager.heard, SerialManager.roles, SerialManager.note, SerialManager.switchRole, hrun]
    rw [hroles]
    exact .single (.yield m.roles hrun hon)
  · have hroles : (m.heard i).roles = { m.roles with log := .header .secondary :: m.roles.log } := by
      simp [SerialManager.heard, SerialManager.roles, SerialManager.note, hrun]
    rw [hroles]
    exact .single (.hear m.roles hrun)

theorem forwardedFrom_device {m : SerialManager} {raw : List UInt8} {start i : Nat}
    (h : m.forwardedFrom raw = some (start, i)) : ∃ dev, m.portConfig.devices[i]? = some dev := by
  unfold SerialManager.forwardedFrom at h
  split_ifs at h
  obtain ⟨start', -, h⟩ := Option.bind_eq_some_iff.mp h
  obtain ⟨index, hindex, hpair⟩ := Option.map_eq_some_iff.mp h
  obtain ⟨id, -, hfind⟩ := Option.bind_eq_some_iff.mp hindex
  cases hpair
  obtain ⟨hlt, -⟩ := List.findIdx?_eq_some_iff_getElem.mp hfind
  exact ⟨_, List.getElem?_eq_getElem hlt⟩

/-- Handling a valid packet clears the counter, if the station is read. -/
theorem handleValidPacket_moves (m : SerialManager) (packet : DataPacket) (frame : List UInt8) :
    RoleMoves m.roles (m.handleValidPacket packet frame).roles ∧
      (m.reads m.index = true → (∃ dev, m.portConfig.devices[m.index]? = some dev) →
        RoleMoves { m.roles with timeOutCount := 0 } (m.handleValidPacket packet frame).roles) := by
  cases hreads : m.reads m.index with
  | false =>
    have hw := handleValidPacket_stopped packet frame hreads
    exact ⟨moves_of_withdraws hw, by simp⟩
  | true =>
    cases hdev : m.portConfig.devices[m.index]? with
    | none =>
      rw [handleValidPacket_missing packet frame hreads hdev]
      exact ⟨.refl, by simp⟩
    | some dev =>
      obtain ⟨-, -, hon, hrun, htime, hlog⟩ := handleValidPacket_published packet frame hreads hdev
      have hcleared : RoleMoves { m.roles with timeOutCount := 0 }
          (m.handleValidPacket packet frame).roles := by
        have hroles : (m.handleValidPacket packet frame).roles =
            { m.roles with
              timeOutCount := 0
              log := [.published (statusOf m.portConfig.portNumber dev true true packet.status frame)] ++
                m.roles.log } := by
          simp only [SerialManager.roles, hon, hrun, htime, hlog, List.singleton_append]
        rw [hroles]
        exact .single (.publish { m.roles with timeOutCount := 0 } _ (by simp))
      exact ⟨.head (.answered m.roles) hcleared, fun _ _ => hcleared⟩

/-- While the port listens, every station whose valid frames are forwarded to it is read. -/
def HeardStationsRead (m : SerialManager) (turns : List Turn) : Prop :=
  m.portOpen = true → m.currentRun = .secondary → ∀ exit raw rest start i packet,
    m.assemble m.rxPending turns = .frame exit raw rest →
    m.forwardedFrom raw = some (start, i) →
    parseDataPacket (SerialManager.forwardedFrame raw start) = .ok packet → m.reads i = true

theorem dispatch_forwarded_moves {m : SerialManager} {frame : List UInt8}
    (hrun : m.currentRun = .secondary) (hdev : ∃ dev, m.portConfig.devices[m.index]? = some dev)
    (hclear : ∀ packet, parseDataPacket frame = .ok packet →
      m.reads m.index = true ∨ m.timeOutCount = 0) :
    RoleMoves m.roles (m.dispatch frame true).1.roles := by
  cases hparse : parseDataPacket frame with
  | error reason =>
    simp only [SerialManager.dispatch, hparse, hrun, Bool.not_true, Bool.false_eq_true, if_false,
      reduceCtorEq]
    exact .refl
  | ok packet =>
    rw [dispatch_ok hparse]
    obtain ⟨hport, hindex, hon, hrun', htime, -, -, hlog⟩ := beforeHandling_frame m
    obtain ⟨hkeep, hcleared⟩ := handleValidPacket_moves m.beforeHandling packet frame
    have hforwarded : RoleMove m.roles { m.beforeHandling.roles with timeOutCount := 0 } := by
      have hroles : ({ m.beforeHandling.roles with timeOutCount := 0 } : Roles) =
          { m.roles with timeOutCount := 0, log := .forwarded :: m.roles.log } := by
        simp [SerialManager.roles, hon, hrun', hlog, hrun]
      rw [hroles]
      exact .forwarded m.roles hrun
    rcases hclear packet hparse with hreads | hzero
    · exact .head hforwarded (hcleared (by rw [beforeHandling_reads, hindex]; exact hreads)
        (by rw [hport, hindex]; exact hdev))
    · have hsame : ({ m.beforeHandling.roles with timeOutCount := 0 } : Roles) =
          m.beforeHandling.roles := by
        simp [SerialManager.roles, htime, hzero]
      rw [hsame] at hforwarded
      exact .head hforwarded hkeep

theorem dispatch_direct_moves {m : SerialManager} {frame : List UInt8}
    (hrun : m.currentRun = .primary) : RoleMoves m.roles (m.dispatch frame true).1.roles := by
  cases hparse : parseDataPacket frame with
  | error reason =>
    simp only [SerialManager.dispatch, hparse, hrun, Bool.not_true, Bool.false_eq_true, if_false,
      if_true]
    exact .refl
  | ok packet =>
    rw [dispatch_ok hparse]
    have hroles : m.beforeHandling.roles = m.roles := by
      simp [SerialManager.beforeHandling, SerialManager.roles, hrun]
    rw [← hroles]
    exact (handleValidPacket_moves m.beforeHandling packet frame).1

theorem receiveDataAttempt_moves (m : SerialManager) (turns : List Turn) (reopen : Reopen)
    (hread : HeardStationsRead m turns) :
    RoleMoves m.roles (m.receiveDataAttempt turns reopen).1.roles := by
  have hcases := receiveDataAttempt_cases m turns reopen
  generalize (m.receiveDataAttempt turns reopen).1 = m' at hcases ⊢
  generalize (m.receiveDataAttempt turns reopen).2 = out at hcases
  cases hcases with
  | silent hw hnone hout => exact moves_of_withdraws hw
  | unattributed hopen hraw hfwd hrun =>
    rename_i exit raw rest
    exact handleUnattributedFrame_moves (m.keepPending rest)
  | direct hopen hraw hfwd hrun =>
    rename_i exit raw rest
    have hkept : (m.keepPending rest).currentRun = .primary := hrun
    exact dispatch_direct_moves hkept
  | forwarded hopen hraw hfwd =>
    rename_i exit raw rest start i
    have hfwd' : (m.keepPending rest).forwardedFrom raw = some (start, i) := hfwd
    have hheard : RoleMoves m.roles ((m.keepPending rest).heard i).roles := heard_moves hfwd'
    refine hheard.trans (dispatch_forwarded_moves ?_ ?_ ?_)
    · exact SerialManager.heard_currentRun _ i
    · rw [SerialManager.heard_index, SerialManager.heard_portConfig]
      exact forwardedFrom_device hfwd
    · intro packet hparse
      rcases m.currentRun.eq_primary_or_secondary with hrun | hrun
      · -- Giving up the role has cleared the counter already.
        exact .inr (by simp [SerialManager.heard, SerialManager.switchRole, hrun])
      · refine .inl ?_
        rw [SerialManager.heard_index, SerialManager.heard_reads]
        exact hread hopen hrun exit raw rest start i packet hraw hfwd hparse

/-! ## The worker follows the machine -/

theorem sendCommand_withdraws (m : SerialManager) (t : Transmit) :
    Withdraws m (m.sendCommand t).1 := by
  unfold SerialManager.sendCommand
  split_ifs
  · exact Withdraws.rfl
  · exact reconnect_withdraws m t.reopen
  · exact Withdraws.rfl
  · exact closeAndReconnect_withdraws m t.reopen

theorem executeCommandTurn_withdraws (m : SerialManager) (t : CommandTurn) :
    Withdraws m (m.executeCommandTurn t) := by
  unfold SerialManager.executeCommandTurn
  have hsend := sendCommand_withdraws m t.send
  cases hs : m.sendCommand t.send with
  | mk m' sent =>
    rw [hs] at hsend
    dsimp only at hsend ⊢
    split
    · exact hsend.trans (closeAndReconnect_withdraws _ _)
    · exact hsend

theorem executeCommand_withdraws (m : SerialManager) (turns : List CommandTurn) :
    Withdraws m (m.executeCommand turns) := by
  unfold SerialManager.executeCommand
  induction turns generalizing m with
  | nil => exact Withdraws.rfl
  | cons t turns ih => exact (executeCommandTurn_withdraws m t).trans (ih _)

/-- A query on the wire, whatever the transport does with it. -/
theorem query_moves {m : SerialManager} (id : UInt8) (t : Transmit) (hrun : m.currentRun = .primary) :
    RoleMoves m.roles (((m.keepPending []).note (.queried id)).sendCommand t).1.roles ∧
      (((m.keepPending []).note (.queried id)).sendCommand t).1.currentRun = .primary := by
  have hsend := sendCommand_withdraws ((m.keepPending []).note (.queried id)) t
  exact ⟨.head (.query m.roles id hrun) (moves_of_withdraws hsend), hsend.currentRun.trans hrun⟩

theorem versionTransaction_moves {m : SerialManager} (deviceId : UInt8) (t : VersionTurn)
    (hrun : m.currentRun = .primary) :
    RoleMoves m.roles (m.versionTransaction deviceId t).roles := by
  obtain ⟨hquery, -⟩ := query_moves deviceId t.send hrun
  unfold SerialManager.versionTransaction
  generalize ((m.keepPending []).note (.queried deviceId)).sendCommand t.send = sent at hquery ⊢
  dsimp only
  split
  · exact .trans hquery (moves_of_withdraws (closeAndReconnect_withdraws _ _))
  · exact hquery
  · split_ifs
    · exact hquery
    · exact hquery

theorem openForQuery_withdraws (m : SerialManager) (reopen : Reopen) :
    Withdraws m (m.openForQuery reopen) := by
  unfold SerialManager.openForQuery
  split_ifs
  · exact Withdraws.rfl
  · exact reconnect_withdraws m reopen

theorem performStationVersionQuery_moves (m : SerialManager) (deviceId : UInt8) (t : VersionTurn) :
    RoleMoves m.roles (m.performStationVersionQuery deviceId t).roles := by
  have hopened := openForQuery_withdraws m t.reopenBefore
  unfold SerialManager.performStationVersionQuery
  split
  · exact .refl
  · split_ifs with hreads hrun hclosed
    · exact .refl
    · exact .refl
    · exact moves_of_withdraws hopened
    · have hrun' := hopened.currentRun.trans (not_not.mp hrun)
      exact .trans (moves_of_withdraws hopened) (versionTransaction_moves deviceId t hrun')

theorem receiveData_moves (m : SerialManager) (turns : List Turn) (reopen : Reopen)
    (hread : HeardStationsRead m turns) :
    RoleMoves m.roles (m.receiveData turns reopen).roles := by
  have hattempt := receiveDataAttempt_moves m turns reopen hread
  unfold SerialManager.receiveData
  split
  · rename_i m' failure heq
    rw [heq] at hattempt
    exact .trans hattempt (commitQueryFailure_moves m' failure true)
  · rename_i m' out _ heq
    rw [heq] at hattempt
    exact hattempt

/-- As a primary the port waits for no station in particular. -/
theorem heardStationsRead_primary {m : SerialManager} (turns : List Turn)
    (hrun : m.currentRun = .primary) : HeardStationsRead m turns := by
  intro _ hrun'
  rw [hrun] at hrun'
  cases hrun'

theorem retryQuery_moves {m : SerialManager} (deviceId : UInt8) (failure : QueryFailure)
    (q : QueryTurns) (hrun : m.currentRun = .primary) :
    RoleMoves m.roles (m.retryQuery deviceId failure q).roles := by
  obtain ⟨hquery, hrun'⟩ := query_moves deviceId q.resend hrun
  unfold SerialManager.retryQuery
  generalize ((m.keepPending []).note (.queried deviceId)).sendCommand q.resend = sent at hquery hrun' ⊢
  dsimp only
  split_ifs
  · exact .trans hquery (commitQueryFailure_moves _ _ _)
  · exact .trans hquery
      (receiveData_moves sent.1 q.second q.secondReopen (heardStationsRead_primary _ hrun'))

theorem receiveQueryWithRetry_moves {m : SerialManager} (retryCount : Nat) (q : QueryTurns)
    (hrun : m.currentRun = .primary) :
    RoleMoves m.roles (m.receiveQueryWithRetry retryCount q).roles := by
  have hattempt := receiveDataAttempt_moves m q.first q.firstReopen (heardStationsRead_primary _ hrun)
  unfold SerialManager.receiveQueryWithRetry
  split
  · exact .refl
  · dsimp only
    split
    · rename_i m' failure heq
      rw [heq] at hattempt
      refine .trans hattempt ?_
      split_ifs with hgive
      · exact commitQueryFailure_moves m' failure true
      · simp only [not_or, not_not] at hgive
        exact retryQuery_moves _ failure q hgive.2.1
    · rename_i m' out _ heq
      rw [heq] at hattempt
      exact hattempt

theorem skipRound_roles (m : SerialManager) (state : DeviceRuntimeState) :
    (m.skipRound state).1.roles = m.roles := by
  unfold SerialManager.skipRound
  split_ifs <;> rfl

theorem runPrimaryCycle_moves {m : SerialManager} (c : Cycle) (hrun : m.currentRun = .primary) :
    RoleMoves m.roles (m.runPrimaryCycle c).1.roles ∧
      (m.runPrimaryCycle c).1.currentRun = .primary ∧
      (m.runPrimaryCycle c).2 ≠ .passiveReceive := by
  unfold SerialManager.runPrimaryCycle
  split
  · rename_i turns _
    have hw := executeCommand_withdraws m turns
    exact ⟨moves_of_withdraws hw, hw.currentRun.trans hrun, by simp⟩
  · split
    · rename_i dev state _ _
      have hskip := skipRound_roles m state
      generalize m.skipRound state = skip at hskip ⊢
      have hrun' : skip.1.currentRun = .primary := (congrArg Roles.currentRun hskip).trans hrun
      rw [← hskip]
      dsimp only
      split_ifs
      · exact ⟨.refl, hrun', by simp⟩
      · exact ⟨.refl, hrun', by simp⟩
      · obtain ⟨hquery, hsent⟩ := query_moves dev.config.deviceId c.send hrun'
        exact ⟨hquery, hsent, by simp⟩
      · obtain ⟨hquery, hsent⟩ := query_moves dev.config.deviceId c.send hrun'
        exact ⟨hquery, hsent, by simp⟩
    · exact ⟨.refl, hrun, by simp⟩

theorem runSecondaryCycle_moves {m : SerialManager} (c : Cycle) (hrun : m.currentRun = .secondary) :
    RoleMoves m.roles (m.runSecondaryCycle c).1.roles ∧
      (m.runSecondaryCycle c).1.currentRun = .secondary ∧
      (m.runSecondaryCycle c).2 ≠ .querySent := by
  unfold SerialManager.runSecondaryCycle
  split
  · rename_i turns _
    have hw := executeCommand_withdraws m turns
    exact ⟨moves_of_withdraws hw, hw.currentRun.trans hrun, by simp⟩
  · rename_i turns _
    have hw := executeCommand_withdraws m turns
    exact ⟨moves_of_withdraws hw, hw.currentRun.trans hrun, by simp⟩
  · exact ⟨.refl, hrun, by simp⟩

theorem advanceIndex_moves (m : SerialManager) (c : Cycle) (result : CycleResult) :
    RoleMoves m.roles (m.advanceIndex c result).roles := by
  unfold SerialManager.advanceIndex
  split_ifs
  · unfold SerialManager.executeScheduledQuery
    split
    · exact performStationVersionQuery_moves m.nextIndex _ _
    · exact .refl
  · exact .refl
  · exact .refl

/-- The side condition on one action: it concerns the passes that listen. -/
def ListensToRead (m : SerialManager) : WorkerAction → Prop
  | .cycle c => m.portConfig.status = true → (m.runCycle c).2 = .passiveReceive →
      HeardStationsRead (m.runCycle c).1 c.listen
  | _ => True

theorem receiveAfter_moves {m : SerialManager} (retryCount : Nat) {c : Cycle} {result : CycleResult}
    (hquery : result = .querySent → m.currentRun = .primary)
    (hread : result = .passiveReceive → HeardStationsRead m c.listen) :
    RoleMoves m.roles (m.receiveAfter retryCount c result).roles := by
  cases result with
  | querySent => exact receiveQueryWithRetry_moves retryCount c.query (hquery rfl)
  | passiveReceive => exact receiveData_moves m c.listen c.listenReopen (hread rfl)
  | idle => exact .refl
  | commandHandled => exact .refl

theorem runCycle_moves (m : SerialManager) (c : Cycle) :
    RoleMoves m.roles (m.runCycle c).1.roles ∧
      ((m.runCycle c).2 = .querySent → (m.runCycle c).1.currentRun = .primary) := by
  rcases m.currentRun.eq_primary_or_secondary with hrun | hrun
  · obtain ⟨hmoves, hrun', -⟩ := runPrimaryCycle_moves c hrun
    simp only [SerialManager.runCycle, hrun]
    exact ⟨hmoves, fun _ => hrun'⟩
  · obtain ⟨hmoves, -, hnot⟩ := runSecondaryCycle_moves c hrun
    simp only [SerialManager.runCycle, hrun]
    exact ⟨hmoves, fun h => absurd h hnot⟩

theorem workerCycle_moves (m : SerialManager) (retryCount : Nat) (c : Cycle)
    (hread : ListensToRead m (.cycle c)) :
    RoleMoves m.roles (m.workerCycle retryCount c).roles := by
  unfold SerialManager.workerCycle
  split_ifs with hoff
  · exact .refl
  · have hstatus : m.portConfig.status = true := by
      by_contra h
      simp [h] at hoff
    obtain ⟨hcycle, hquery⟩ := runCycle_moves m c
    have hafter := receiveAfter_moves retryCount hquery (hread hstatus)
    exact .trans (.trans hcycle hafter) (advanceIndex_moves _ c _)

theorem setPortEnabled_moves (m : SerialManager) (enabled : Bool) (reopen : Reopen) :
    RoleMoves m.roles (m.setPortEnabled enabled reopen).roles := by
  unfold SerialManager.setPortEnabled
  dsimp only
  split_ifs
  · exact moves_of_roles_eq (publishAllZero_withdraws _) rfl
  · exact moves_of_roles_eq (reconnect_withdraws _ reopen) rfl
  · exact .refl

theorem setDeviceEnabledAt_moves (m : SerialManager) (enabled : Bool) (index : Nat) :
    RoleMoves m.roles (m.setDeviceEnabledAt enabled index).roles := by
  unfold SerialManager.setDeviceEnabledAt
  split
  · exact .refl
  · dsimp only
    split_ifs
    · exact moves_of_roles_eq (sendZero_withdraws _ index _) rfl
    · exact .refl

theorem setDeviceEnabled_moves (m : SerialManager) (deviceId : UInt8) (enabled : Bool) :
    RoleMoves m.roles (m.setDeviceEnabled deviceId enabled).roles := by
  unfold SerialManager.setDeviceEnabled
  generalize (List.range m.portConfig.devices.length).filter _ = indexes
  induction indexes generalizing m with
  | nil => exact .refl
  | cons i rest ih => exact .trans (setDeviceEnabledAt_moves m enabled i) (ih _)

theorem setDeviceReadEnabled_moves (m : SerialManager) (deviceId : UInt8) (enabled : Bool) :
    RoleMoves m.roles (m.setDeviceReadEnabled deviceId enabled).roles := by
  unfold SerialManager.setDeviceReadEnabled
  split
  · exact .refl
  · dsimp only
    split_ifs
    · show RoleMoves m.roles (SerialManager.sendZeroStatusForIndex _ _ _ false).roles
      exact moves_of_roles_eq (sendZero_withdraws _ _ _) rfl
    · exact moves_of_roles_eq (sendZero_withdraws _ _ _) rfl

theorem act_moves (m : SerialManager) (retryCount : Nat) (a : WorkerAction)
    (hread : ListensToRead m a) : RoleMoves m.roles (m.act retryCount a).roles := by
  cases a with
  | portStatus enabled reopen => exact setPortEnabled_moves m enabled reopen
  | deviceSetting deviceId enabled => exact setDeviceEnabled_moves m deviceId enabled
  | deviceReadSetting deviceId enabled => exact setDeviceReadEnabled_moves m deviceId enabled
  | queryStationVersion deviceId t => exact performStationVersionQuery_moves m deviceId t
  | restart reopen =>
    have hprepared : Withdraws m m.prepareWorkerRestart :=
      (withdraws_connection m false m.portOfflinePublished []).trans
        (publishPortOfflineOnce_withdraws _)
    exact moves_of_withdraws (hprepared.trans (reconnect_withdraws _ reopen))
  | cycle c => exact workerCycle_moves m retryCount c hread

/-! ## Runs -/

theorem PromotionsEarned.at_split {older : List Event} :
    ∀ {newer : List Event}, PromotionsEarned (newer ++ .switched .primary :: older) →
      portFailoverTimeout.toNat < failuresSince older
  | [], h => h.1
  | e :: newer, h => by
    have htail : PromotionsEarned (newer ++ .switched .primary :: older) := by
      cases e with
      | switched role =>
        cases role with
        | primary => exact h.2
        | secondary => exact h
      | published s => exact h
      | header role => exact h
      | forwarded => exact h
      | failed => exact h
      | queried id => exact h
    exact at_split htail

theorem unanswered_of_no_switch {between older : List Event}
    (h : Event.switched .secondary ∉ between) :
    unanswered (between ++ .header .primary :: older) = true := by
  induction between with
  | nil => rfl
  | cons e between ih =>
    rw [List.mem_cons, not_or] at h
    have hrest := ih h.2
    cases e with
    | switched role =>
      cases role with
      | primary => exact hrest
      | secondary => exact absurd rfl h.1
    | header role =>
      cases role with
      | primary => rfl
      | secondary => exact hrest
    | published s => exact hrest
    | forwarded => exact hrest
    | failed => exact hrest
    | queried id => exact hrest

theorem QueriesYield.at_split {id : UInt8} {between older : List Event} :
    ∀ {newer : List Event}, QueriesYield (newer ++ .queried id :: (between ++ .header .primary :: older)) →
      Event.switched .secondary ∈ between
  | [], h => by
    by_contra hno
    rw [List.nil_append, QueriesYield, unanswered_of_no_switch hno] at h
    cases h.1
  | e :: newer, h => by
    have htail : QueriesYield (newer ++ .queried id :: (between ++ .header .primary :: older)) := by
      cases e with
      | queried id' => exact h.2
      | switched role => exact h
      | published s => exact h
      | header role => exact h
      | forwarded => exact h
      | failed => exact h
    exact at_split htail

/-- No second master, read off the log of a port that started in the role `started`. -/
structure SingleMaster (runOn started : RunLocation) (m : SerialManager) : Prop where
  /-- A configured primary never leaves its role. -/
  primary : runOn = .primary → started = .primary →
    m.currentRun = .primary ∧ ∀ role, Event.switched role ∉ m.log
  /-- A promotion comes after more than the threshold of failures since the last change of role,
  with no valid forwarded frame among them. -/
  promotion : runOn = .secondary → ∀ newer older, m.log = newer ++ .switched .primary :: older →
    portFailoverTimeout.toNat < failuresSince older
  /-- Between a forward header heard as a temporary primary and the next query lies the return to
  standby. -/
  yields : runOn = .secondary → ∀ newer id between older,
    m.log = newer ++ .queried id :: (between ++ .header .primary :: older) →
    Event.switched .secondary ∈ between

theorem newManager_moves (portConfig : SerialPortConfig) (runOn currentRun : RunLocation)
    (opened : Bool) :
    RoleMoves ⟨runOn, currentRun, 0, []⟩ (newManager portConfig runOn currentRun opened).roles := by
  show RoleMoves (freshManager portConfig runOn currentRun opened).roles _
  unfold newManager
  split_ifs
  · exact moves_of_withdraws (publishPortOfflineOnce_withdraws _)
  · exact moves_of_withdraws (publishAllZero_withdraws _)
  · exact .refl

/-- What every move keeps holds after every run that listens to stations it reads. -/
theorem run_invariant {portConfig : SerialPortConfig} {runOn currentRun : RunLocation}
    {opened : Bool} {retryCount : Nat} {actions : List WorkerAction} {m : SerialManager}
    (inv : Roles → Prop) (hmove : ∀ r r', RoleMove r r' → inv r → inv r')
    (h0 : inv ⟨runOn, currentRun, 0, []⟩)
    (hrun : Lib.Run.exec (SerialManager.step retryCount)
      (newManager portConfig runOn currentRun opened) actions = some m)
    (hread : Lib.Run.Meets (SerialManager.step retryCount) ListensToRead
      (newManager portConfig runOn currentRun opened) actions) : inv m.roles := by
  have hstart : inv (newManager portConfig runOn currentRun opened).roles :=
    Lib.Run.moves_invariant inv hmove (newManager_moves portConfig runOn currentRun opened) h0
  refine Lib.Run.meets_invariant ListensToRead (fun s => inv s.roles) ?_ hstart hread hrun
  intro s a s' hinv hok hstep
  obtain rfl : s.act retryCount a = s' := Option.some.inj hstep
  exact Lib.Run.moves_invariant inv hmove (act_moves s retryCount a hok) hinv

/-- Along every run in which the valid frames heard as a standby are of stations that are read. -/
theorem no_second_master (portConfig : SerialPortConfig) (runOn started : RunLocation)
    (opened : Bool) (retryCount : Nat) (actions : List WorkerAction) (m : SerialManager)
    (hrun : Lib.Run.exec (SerialManager.step retryCount)
      (newManager portConfig runOn started opened) actions = some m)
    (hread : Lib.Run.Meets (SerialManager.step retryCount) ListensToRead
      (newManager portConfig runOn started opened) actions) :
    SingleMaster runOn started m := by
  have hstandby : StandbyInv m.roles :=
    run_invariant StandbyInv (fun _ _ h => h.standbyInv)
      ⟨Nat.zero_le _, trivial, rfl, trivial⟩ hrun hread
  refine ⟨?_, ?_, ?_⟩
  · rintro rfl rfl
    have hprimary : PrimaryInv m.roles :=
      run_invariant PrimaryInv (fun _ _ h => h.primaryInv) ⟨rfl, rfl, by simp⟩ hrun hread
    exact ⟨hprimary.run, hprimary.never⟩
  · intro _ newer older hlog
    have hearned : PromotionsEarned m.log := hstandby.earned
    rw [hlog] at hearned
    exact hearned.at_split
  · intro _ newer id between older hlog
    have hyields : QueriesYield m.log := hstandby.yields
    rw [hlog] at hyields
    exact hyields.at_split

/-! ## A station that is not read -/

def quietTransmit : Transmit := ⟨false, true, .cooling⟩

/-- A pass that listens and gets these bytes, then silence. -/
def listening (bytes : List UInt8) : WorkerAction :=
  .cycle
    { command := none
      send := quietTransmit
      query := ⟨[], .cooling, quietTransmit, [], .cooling⟩
      listen := if bytes = [] then [] else [⟨false, .data bytes⟩]
      listenReopen := .cooling
      version := none }

/-- The primary's query to station 1, the separator and the station's answer. -/
def forwardedResponse : List UInt8 := [1, 8, 2, 48, 16, 2, 77, 0, 0, 1, 8, 2, 0, 7, 1, 19]

def samplePort : SerialPortConfig := ⟨"COM1", [sampleDevice], true⟩

/-- Reading the station is stopped; twenty silent passes, one forwarded answer, one silent pass. -/
def stoppedStationRun : List WorkerAction :=
  .deviceReadSetting 1 false :: List.replicate 20 (listening []) ++
    [listening forwardedResponse, listening []]

def afterStoppedStation : SerialManager :=
  stoppedStationRun.foldl (SerialManager.act 0) (newManager samplePort .secondary .secondary true)

def Event.isPromotion : Event → Bool
  | .switched .primary => true
  | _ => false

theorem eq_cons_of_isPromotion {log : List Event} (h : log.head?.any Event.isPromotion = true) :
    log = .switched .primary :: log.tail := by
  cases log with
  | nil => cases h
  | cons e log =>
    cases e with
    | switched role =>
      cases role with
      | primary => rfl
      | secondary => cases h
    | published s => cases h
    | header role => cases h
    | forwarded => cases h
    | failed => cases h
    | queried id => cases h

/-- The port becomes a primary one failure after the real primary was heard. -/
theorem promoted_while_heard :
    ¬ ∀ (portConfig : SerialPortConfig) (runOn started : RunLocation) (opened : Bool)
        (retryCount : Nat) (actions : List WorkerAction) (m : SerialManager),
        Lib.Run.exec (SerialManager.step retryCount)
          (newManager portConfig runOn started opened) actions = some m →
        SingleMaster runOn started m := by
  intro h
  have hmaster := h samplePort .secondary .secondary true 0 stoppedStationRun afterStoppedStation
    (exec_step 0 _ stoppedStationRun)
  have hpromoted : afterStoppedStation.log.head?.any Event.isPromotion = true := by decide +kernel
  have hcount := hmaster.promotion rfl [] _ (eq_cons_of_isPromotion hpromoted)
  exact absurd hcount (by decide +kernel)

/-- While the station is read, the same frame counts as a sign of life. -/
theorem no_second_master_sample :
    SingleMaster .secondary .secondary
      ((newManager samplePort .secondary .secondary true).act 0 (listening forwardedResponse)) := by
  refine no_second_master samplePort .secondary .secondary true 0 [listening forwardedResponse] _ rfl
    ⟨?_, fun _ _ => trivial⟩
  intro _ _ _ _ exit raw rest start i packet hraw hfwd _
  have hframe : ((newManager samplePort .secondary .secondary true).assemble []
      [⟨false, .data forwardedResponse⟩]) = .frame .complete forwardedResponse [] := by rfl
  cases hframe.symm.trans hraw
  cases hfwd
  rfl

end RcdServer.Serial
