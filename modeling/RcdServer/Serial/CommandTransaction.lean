import RcdServer.Lib.Run
import RcdServer.Tracking.State

/-!
# The serial transaction of one tracked command against the deadline sweeper

The worker takes a command out of its channel, rejects or queues it, and executes
it with a bounded number of attempts. Every piece of evidence it leaves is one
`Tracker::update` with its own closure. The OPC task sweeps commands past their
deadline at the same time. A step below is one such closure, or a decision of the
worker that other threads can slip in after.
-/
namespace RcdServer.Serial

open Tracking

/-! ## The closures -/

inductive CommandAckStatus where
  | waiting | received | failed
  deriving DecidableEq

def modifyLast (f : Attempt → Attempt) : List Attempt → List Attempt
  | [] => []
  | [a] => [f a]
  | a :: b :: rest => a :: modifyLast f (b :: rest)

/-- `enqueue_or_reject_command` and `reject_queued_commands`. -/
def rejectedBy (reason : String) (v : Snapshot) : Snapshot :=
  { v with phase := .failed, error := reason }

/-- `reject_incoming_commands`. -/
def shutDown (v : Snapshot) : Snapshot :=
  if v.terminal then v else { v with phase := .failed, error := "worker_shutdown_before_send" }

/-- The two deadline tests of `execute_queued_command` and its retry loop. -/
def expiredBy (error : String) (v : Snapshot) : Snapshot :=
  { v with phase := .expired, error := error }

def executing (attempt : Nat) (now : String) (v : Snapshot) : Snapshot :=
  { v with
    phase := .executing
    attemptCount := attempt
    attempts := v.attempts ++ [⟨attempt, false, "Sending", now⟩] }

/-- The outcome of a command sent without waiting for an acknowledgement. -/
def directOutcome (sent : Bool) (v : Snapshot) : Snapshot :=
  let result := if sent then "SentUnconfirmed" else "write_failed"
  { v with
    phase := if sent then .sentUnconfirmed else .failed
    sentCount := sent.toNat
    error := if sent then v.error else "write_failed"
    attempts := modifyLast (fun a => { a with sent := sent, result := result }) v.attempts }

def writeFailed (v : Snapshot) : Snapshot := { v with error := "write_failed" }

def writeDone (v : Snapshot) : Snapshot :=
  { v with
    sentCount := v.sentCount + 1
    attempts := modifyLast (fun a => { a with sent := true, result := "WaitingForAck" }) v.attempts }

def ackMissed (reason : String) (v : Snapshot) : Snapshot :=
  { v with
    error := reason
    attempts := modifyLast (fun a => { a with result := reason }) v.attempts }

/-- The closure of `send_ack_status`. -/
def ackStatus (status : CommandAckStatus) (v : Snapshot) : Snapshot :=
  match status with
  | .waiting => v
  | .received =>
    { v with
      phase := .ackReceived
      error := ""
      attempts := modifyLast (fun a => { a with result := "AckReceived" }) v.attempts }
  | .failed =>
    if v.terminal then v
    else
      { v with
        phase := .failed
        error := if v.error = "" then "serial command rejected or write failed" else v.error
        attempts := modifyLast
          (fun a => if a.result = "Sending" then { a with result := "write_failed" } else a) v.attempts }

/-- `ExecutionGuard::drop`. -/
def interrupted (v : Snapshot) : Snapshot :=
  if v.terminal then v
  else
    { v with
      phase := .unknown
      error := "serial transaction interrupted; device outcome unknown"
      auditIncomplete := true }

/-- The closure of the expiry sweep. -/
def swept (v : Snapshot) : Snapshot :=
  if v.terminal then v else { v with phase := .expired, error := "command deadline expired" }

/-! ## The two threads -/

/-- A send node write waits for the acknowledgement under a deadline that the worker and the
sweeper share; the legacy method does neither. -/
inductive Submission where
  | sendNode (deadline : Nat)
  | method
  deriving DecidableEq

def Submission.reportAck : Submission → Bool
  | .sendNode _ => true
  | .method => false

def Submission.deadline : Submission → Option Nat
  | .sendNode d => some d
  | .method => none

/-- Where the worker stands with the command. From `entered` to `leaving` the execution guard lives. -/
inductive Place where
  | channel
  | queued
  | notifying
  | entered
  | expiring (error : String)
  | direct
  | directSending
  | directSent (sent : Bool)
  | trying (attempt : Nat)
  | marking (attempt : Nat)
  | sending (attempt : Nat)
  | unsent
  | sentOut (attempt : Nat)
  | waiting (attempt : Nat)
  | receiving (attempt : Nat)
  | missed (attempt : Nat) (reason : String)
  | acknowledged
  | failing
  | leaving
  | done
  deriving DecidableEq

/-- Whether the execution guard is alive. -/
def Place.guarded : Place → Bool
  | .channel | .queued | .notifying | .done => false
  | _ => true

structure Sys where
  submission : Submission
  retryCount : Nat
  clock : Nat
  snapshot : Snapshot
  place : Place
  pending : Bool
  candidate : Bool
  swept : Bool

/-- The command as it reaches the worker's channel. -/
def Sys.initial (submission : Submission) (retryCount clock : Nat) (v : Snapshot) : Sys :=
  { submission := submission
    retryCount := retryCount
    clock := clock
    snapshot := { v with phase := .accepted }
    place := .channel
    pending := submission.deadline.isSome
    candidate := false
    swept := false }

def Sys.expired (s : Sys) : Bool := s.submission.deadline.any fun d => decide (d ≤ s.clock)

/-- What the serial line and the clock contribute to a step of the worker. -/
structure Outcome where
  ok : Bool
  reason : String
  now : String

inductive Action where
  | tick (ticks : Nat)
  | enqueue
  | reject (reason : String)
  | shutdown
  | pop
  | work (o : Outcome)
  | panic
  | collect
  | sweep
  | forget

/-- One `Tracker::update` by the worker, which then stands at `place`. -/
def Sys.record (s : Sys) (change : Snapshot → Snapshot) (place : Place) : Sys :=
  { s with snapshot := trimAttempts (change s.snapshot), place := place }

/-- The next step of `execute_queued_command`. -/
def Sys.work (s : Sys) (o : Outcome) : Option Sys :=
  match s.place with
  | .entered =>
    if s.expired then some { s with place := .expiring "deadline_expired_before_send" }
    else if s.submission.reportAck then some { s with place := .trying 1 }
    else some { s with place := .direct }
  | .expiring error =>
    some (s.record (expiredBy error) (if s.submission.reportAck then .failing else .leaving))
  | .direct => some (s.record (executing 1 o.now) .directSending)
  | .directSending => some { s with place := .directSent o.ok }
  | .directSent sent => some (s.record (directOutcome sent) .leaving)
  | .trying attempt =>
    if s.expired then some { s with place := .expiring "deadline_expired" }
    else some { s with place := .marking attempt }
  | .marking attempt => some (s.record (executing attempt o.now) (.sending attempt))
  | .sending attempt => some { s with place := if o.ok then .sentOut attempt else .unsent }
  | .unsent => some (s.record writeFailed .failing)
  | .sentOut attempt => some (s.record writeDone (.waiting attempt))
  | .waiting attempt => some (s.record (ackStatus .waiting) (.receiving attempt))
  | .receiving attempt =>
    some { s with place := if o.ok then .acknowledged else .missed attempt o.reason }
  | .missed attempt reason =>
    some (s.record (ackMissed reason)
      (if attempt < max s.retryCount 1 then .trying (attempt + 1) else .failing))
  | .acknowledged => some (s.record (ackStatus .received) .leaving)
  | .failing => some (s.record (ackStatus .failed) .leaving)
  | .leaving => some (s.record interrupted .done)
  | .notifying => some (s.record (ackStatus .failed) .done)
  | .channel | .queued | .done => none

/-- A rejected command ends its acknowledgement wait, if it has one. -/
def Sys.afterReject (s : Sys) : Place := if s.submission.reportAck then .notifying else .done

def step (s : Sys) : Action → Option Sys
  | .tick ticks => some { s with clock := s.clock + ticks }
  | .enqueue => if s.place = .channel then some { s with place := .queued } else none
  | .reject reason =>
    if s.place = .channel ∨ s.place = .queued then some (s.record (rejectedBy reason) s.afterReject)
    else none
  | .shutdown => if s.place = .channel then some (s.record shutDown s.afterReject) else none
  | .pop => if s.place = .queued then some { s with place := .entered } else none
  | .work o => s.work o
  | .panic => if s.place.guarded then some { s with place := .leaving } else none
  | .collect => if s.pending ∧ s.expired then some { s with candidate := true } else none
  | .sweep =>
    if s.candidate then
      some { s with
        snapshot := trimAttempts (Serial.swept s.snapshot)
        swept := s.swept || !s.snapshot.terminal
        candidate := false
        pending := false }
    else none
  | .forget => some { s with pending := false }

/-! ## What a step does to the evidence -/

/-- Terminal evidence becomes open again, or a precise outcome becomes the generic one. -/
def Degrades (v v' : Snapshot) : Prop :=
  (v.terminal = true ∧ v'.terminal = false) ∨
    ((v.phase = .expired ∨ v.phase = .unknown) ∧ v'.phase = .failed)

/-- The sweeper has recorded the expiry, and the worker now rejects the command, or marks an
attempt whose deadline test it passed before. -/
def Race (s : Sys) : Action → Prop
  | .reject _ => s.swept = true
  | .work _ => s.swept = true ∧ ∃ attempt, s.place = .marking attempt
  | _ => False

@[simp] theorem trimAttempts_phase (v : Snapshot) : (trimAttempts v).phase = v.phase := by
  unfold trimAttempts
  split <;> rfl

@[simp] theorem trimAttempts_terminal (v : Snapshot) : (trimAttempts v).terminal = v.terminal :=
  congrArg Phase.terminal (trimAttempts_phase v)

theorem Degrades.terminal {v v' : Snapshot} (h : Degrades v v') : v.terminal = true := by
  rcases h with ⟨h, -⟩ | ⟨h | h, -⟩
  · exact h
  · rw [Snapshot.terminal, h]; rfl
  · rw [Snapshot.terminal, h]; rfl

theorem not_degrades_open {v v' : Snapshot} (h : v.terminal = false) : ¬ Degrades v v' := by
  intro hd
  have ht := hd.terminal
  rw [h] at ht
  cases ht

theorem not_degrades_same {v v' : Snapshot} (h : v'.phase = v.phase) : ¬ Degrades v v' := by
  have hterm : v'.terminal = v.terminal := congrArg Phase.terminal h
  rintro (⟨ht, hf⟩ | ⟨hp, hf⟩)
  · rw [hterm, ht] at hf
    cases hf
  · rw [h] at hf
    rcases hp with hp | hp <;> rw [hp] at hf <;> cases hf

/-- A closure that tests `terminal()` first degrades nothing. -/
theorem not_degrades_guarded {v v' : Snapshot} (h : v.terminal = true → v'.phase = v.phase) :
    ¬ Degrades v v' := by
  cases hv : v.terminal with
  | false => exact not_degrades_open hv
  | true => exact not_degrades_same (h hv)

/-- Nor does one that writes a terminal phase other than `Failed`. -/
theorem not_degrades_precise {v v' : Snapshot} (ht : v'.terminal = true) (hf : v'.phase ≠ .failed) :
    ¬ Degrades v v' := by
  rintro (⟨-, h⟩ | ⟨-, h⟩)
  · rw [ht] at h
    cases h
  · exact hf h

theorem ackStatus_failed_guarded {v : Snapshot} (h : v.terminal = true) :
    ackStatus .failed v = v := by
  simp [ackStatus, h]

theorem interrupted_guarded {v : Snapshot} (h : v.terminal = true) : interrupted v = v := by
  simp [interrupted, h]

theorem swept_guarded {v : Snapshot} (h : v.terminal = true) : swept v = v := by
  simp [swept, h]

theorem shutDown_guarded {v : Snapshot} (h : v.terminal = true) : shutDown v = v := by
  simp [shutDown, h]

/-! ## The invariant -/

/-- Places before the outcome: the worker itself has recorded nothing terminal yet. -/
def Place.undecided : Place → Bool
  | .failing | .leaving | .notifying | .done => false
  | _ => true

/-- Places of the path without acknowledgement. -/
def Place.isDirect : Place → Bool
  | .direct | .directSending | .directSent _ => true
  | _ => false

/-- Places where the next write of the worker does not test the evidence. -/
def Place.exposed : Place → Bool
  | .channel | .queued | .marking _ => true
  | _ => false

structure Inv (s : Sys) : Prop where
  unswept : s.swept = false → s.place.undecided = true → s.snapshot.terminal = false
  exposed : s.swept = true → s.place.exposed = true → s.snapshot.phase = .expired
  late : s.swept = true → s.expired = true
  candidate : s.candidate = true → s.expired = true
  direct : s.place.isDirect = true → s.submission.deadline = none

theorem inv_initial (submission : Submission) (retryCount clock : Nat) (v : Snapshot) :
    Inv (Sys.initial submission retryCount clock v) := by
  refine ⟨fun _ _ => rfl, ?_, ?_, ?_, ?_⟩ <;> intro h <;> cases h

/-- The direct path has no deadline, so its command is never swept. -/
theorem Inv.direct_unswept {s : Sys} (h : Inv s) (hd : s.place.isDirect = true) : s.swept = false := by
  cases hs : s.swept with
  | false => rfl
  | true =>
    have hlate := h.late hs
    rw [Sys.expired, h.direct hd] at hlate
    cases hlate

theorem expired_mono {s : Sys} {ticks : Nat} (h : s.expired = true) :
    Sys.expired { s with clock := s.clock + ticks } = true := by
  unfold Sys.expired at h ⊢
  cases hd : s.submission.deadline with
  | none =>
    rw [hd] at h
    cases h
  | some d =>
    rw [hd] at h
    have hle : d ≤ s.clock := by simpa using h
    simpa using hle.trans (Nat.le_add_right _ _)

/-- The worker moves on without writing. -/
theorem Inv.go {s : Sys} (h : Inv s) (place : Place)
    (hund : place.undecided = true → s.place.undecided = true)
    (hexp : place.exposed = true → s.place.exposed = true ∨ s.swept = false)
    (hdir : place.isDirect = true → s.submission.deadline = none) :
    Inv { s with place := place } where
  unswept hs hp := h.unswept hs (hund hp)
  exposed hs hp := by
    rcases hexp hp with hp | hn
    · exact h.exposed hs hp
    · rw [hn] at hs
      cases hs
  late := h.late
  candidate := h.candidate
  direct := hdir

/-- The worker writes and moves to a place where nothing exposed follows. -/
theorem Inv.write {s : Sys} (h : Inv s) (change : Snapshot → Snapshot) (place : Place)
    (hund : place.undecided = true → s.swept = false → (change s.snapshot).terminal = false)
    (hexp : place.exposed = false)
    (hdir : place.isDirect = true → s.submission.deadline = none) : Inv (s.record change place) where
  unswept hs hp := by
    change (trimAttempts (change s.snapshot)).terminal = false
    rw [trimAttempts_terminal]
    exact hund hp hs
  exposed hs hp := by
    change place.exposed = true at hp
    rw [hexp] at hp
    cases hp
  late := h.late
  candidate := h.candidate
  direct := hdir

/-- A deadline test that the command passes shows that the sweeper has not been there. -/
theorem Inv.unswept_of_test {s : Sys} (h : Inv s) (ht : ¬ s.expired = true) : s.swept = false := by
  cases hs : s.swept with
  | false => rfl
  | true => exact absurd (h.late hs) ht

theorem Inv.work {s s' : Sys} {o : Outcome} (h : Inv s) (hw : s.work o = some s') : Inv s' := by
  cases hp : s.place with
  | entered =>
    have hund : s.place.undecided = true := by rw [hp]; rfl
    simp only [Sys.work, hp] at hw
    split at hw
    · obtain rfl := Option.some.inj hw
      exact h.go _ (fun _ => hund) (fun hf => by cases hf) (fun hf => by cases hf)
    · split at hw
      · obtain rfl := Option.some.inj hw
        exact h.go _ (fun _ => hund) (fun hf => by cases hf) (fun hf => by cases hf)
      · rename_i hack
        obtain rfl := Option.some.inj hw
        refine h.go _ (fun _ => hund) (fun hf => by cases hf) (fun _ => ?_)
        cases hsub : s.submission with
        | sendNode d => exact absurd (by rw [hsub]; rfl) hack
        | method => rfl
  | expiring error =>
    simp only [Sys.work, hp] at hw
    obtain rfl := Option.some.inj hw
    cases s.submission.reportAck with
    | true => exact h.write _ _ (fun hf => by cases hf) rfl (fun hf => by cases hf)
    | false => exact h.write _ _ (fun hf => by cases hf) rfl (fun hf => by cases hf)
  | direct =>
    simp only [Sys.work, hp] at hw
    obtain rfl := Option.some.inj hw
    exact h.write _ _ (fun _ _ => rfl) rfl (fun _ => h.direct (by rw [hp]; rfl))
  | directSending =>
    simp only [Sys.work, hp] at hw
    obtain rfl := Option.some.inj hw
    exact h.go _ (fun _ => by rw [hp]; rfl) (fun hf => by cases hf) (fun _ => h.direct (by rw [hp]; rfl))
  | directSent sent =>
    simp only [Sys.work, hp] at hw
    obtain rfl := Option.some.inj hw
    exact h.write _ _ (fun hf => by cases hf) rfl (fun hf => by cases hf)
  | trying attempt =>
    have hund : s.place.undecided = true := by rw [hp]; rfl
    simp only [Sys.work, hp] at hw
    split at hw
    · obtain rfl := Option.some.inj hw
      exact h.go _ (fun _ => hund) (fun hf => by cases hf) (fun hf => by cases hf)
    · rename_i ht
      obtain rfl := Option.some.inj hw
      exact h.go _ (fun _ => hund) (fun _ => .inr (h.unswept_of_test ht)) (fun hf => by cases hf)
  | marking attempt =>
    simp only [Sys.work, hp] at hw
    obtain rfl := Option.some.inj hw
    exact h.write _ _ (fun _ _ => rfl) rfl (fun hf => by cases hf)
  | sending attempt =>
    simp only [Sys.work, hp] at hw
    obtain rfl := Option.some.inj hw
    cases o.ok with
    | true => exact h.go _ (fun _ => by rw [hp]; rfl) (fun hf => by cases hf) (fun hf => by cases hf)
    | false => exact h.go _ (fun _ => by rw [hp]; rfl) (fun hf => by cases hf) (fun hf => by cases hf)
  | unsent =>
    simp only [Sys.work, hp] at hw
    obtain rfl := Option.some.inj hw
    exact h.write _ _ (fun hf => by cases hf) rfl (fun hf => by cases hf)
  | sentOut attempt =>
    simp only [Sys.work, hp] at hw
    obtain rfl := Option.some.inj hw
    exact h.write _ _ (fun _ hs => h.unswept hs (by rw [hp]; rfl)) rfl (fun hf => by cases hf)
  | waiting attempt =>
    simp only [Sys.work, hp] at hw
    obtain rfl := Option.some.inj hw
    exact h.write _ _ (fun _ hs => h.unswept hs (by rw [hp]; rfl)) rfl (fun hf => by cases hf)
  | receiving attempt =>
    simp only [Sys.work, hp] at hw
    obtain rfl := Option.some.inj hw
    cases o.ok with
    | true => exact h.go _ (fun _ => by rw [hp]; rfl) (fun hf => by cases hf) (fun hf => by cases hf)
    | false => exact h.go _ (fun _ => by rw [hp]; rfl) (fun hf => by cases hf) (fun hf => by cases hf)
  | missed attempt reason =>
    have hlive := fun hs => h.unswept hs (by rw [hp]; rfl)
    simp only [Sys.work, hp] at hw
    obtain rfl := Option.some.inj hw
    split
    · exact h.write _ _ (fun _ hs => hlive hs) rfl (fun hf => by cases hf)
    · exact h.write _ _ (fun hf => by cases hf) rfl (fun hf => by cases hf)
  | acknowledged =>
    simp only [Sys.work, hp] at hw
    obtain rfl := Option.some.inj hw
    exact h.write _ _ (fun hf => by cases hf) rfl (fun hf => by cases hf)
  | failing =>
    simp only [Sys.work, hp] at hw
    obtain rfl := Option.some.inj hw
    exact h.write _ _ (fun hf => by cases hf) rfl (fun hf => by cases hf)
  | leaving =>
    simp only [Sys.work, hp] at hw
    obtain rfl := Option.some.inj hw
    exact h.write _ _ (fun hf => by cases hf) rfl (fun hf => by cases hf)
  | notifying =>
    simp only [Sys.work, hp] at hw
    obtain rfl := Option.some.inj hw
    exact h.write _ _ (fun hf => by cases hf) rfl (fun hf => by cases hf)
  | channel => simp [Sys.work, hp] at hw
  | queued => simp [Sys.work, hp] at hw
  | done => simp [Sys.work, hp] at hw

theorem Inv.afterReject {s : Sys} (h : Inv s) (change : Snapshot → Snapshot) :
    Inv (s.record change s.afterReject) := by
  unfold Sys.afterReject
  split
  · exact h.write _ _ (fun hf => by cases hf) rfl (fun hf => by cases hf)
  · exact h.write _ _ (fun hf => by cases hf) rfl (fun hf => by cases hf)

/-- The sweep itself: from then on the evidence of an undecided command reads `Expired`. -/
theorem Inv.sweep {s : Sys} (h : Inv s) (hc : s.candidate = true) :
    Inv { s with
      snapshot := trimAttempts (Serial.swept s.snapshot)
      swept := s.swept || !s.snapshot.terminal
      candidate := false
      pending := false } where
  unswept hs hp := by
    have hold : s.swept = false ∧ s.snapshot.terminal = true := by simpa using hs
    have hlive := h.unswept hold.1 hp
    rw [hold.2] at hlive
    cases hlive
  exposed hs hp := by
    change (trimAttempts (Serial.swept s.snapshot)).phase = .expired
    rw [trimAttempts_phase]
    cases hterm : s.snapshot.terminal with
    | false => simp [Serial.swept, hterm]
    | true =>
      rw [swept_guarded hterm]
      have hold : s.swept = true := by simpa [hterm] using hs
      exact h.exposed hold hp
  late _ := h.candidate hc
  candidate hf := by cases hf
  direct := h.direct

theorem inv_step {s s' : Sys} {a : Action} (h : Inv s) (hstep : step s a = some s') : Inv s' := by
  cases a with
  | tick ticks =>
    obtain rfl := Option.some.inj hstep
    exact ⟨h.unswept, h.exposed, fun hs => expired_mono (h.late hs),
      fun hc => expired_mono (h.candidate hc), h.direct⟩
  | enqueue =>
    simp only [step] at hstep
    split at hstep
    · rename_i hp
      obtain rfl := Option.some.inj hstep
      exact h.go _ (fun _ => by rw [hp]; rfl) (fun _ => .inl (by rw [hp]; rfl)) (fun hf => by cases hf)
    · cases hstep
  | reject reason =>
    simp only [step] at hstep
    split at hstep
    · obtain rfl := Option.some.inj hstep
      exact h.afterReject _
    · cases hstep
  | shutdown =>
    simp only [step] at hstep
    split at hstep
    · obtain rfl := Option.some.inj hstep
      exact h.afterReject _
    · cases hstep
  | pop =>
    simp only [step] at hstep
    split at hstep
    · rename_i hp
      obtain rfl := Option.some.inj hstep
      exact h.go _ (fun _ => by rw [hp]; rfl) (fun hf => by cases hf) (fun hf => by cases hf)
    · cases hstep
  | work o => exact h.work hstep
  | panic =>
    simp only [step] at hstep
    split at hstep
    · obtain rfl := Option.some.inj hstep
      exact h.go _ (fun hf => by cases hf) (fun hf => by cases hf) (fun hf => by cases hf)
    · cases hstep
  | collect =>
    simp only [step] at hstep
    split at hstep
    · rename_i hc
      obtain rfl := Option.some.inj hstep
      exact ⟨h.unswept, h.exposed, h.late, fun _ => hc.2, h.direct⟩
    · cases hstep
  | sweep =>
    simp only [step] at hstep
    split at hstep
    · rename_i hc
      obtain rfl := Option.some.inj hstep
      exact h.sweep hc
    · cases hstep
  | forget =>
    obtain rfl := Option.some.inj hstep
    exact ⟨h.unswept, h.exposed, h.late, h.candidate, h.direct⟩

/-! ## Which steps degrade -/

/-- The evidence after a write of the worker. -/
theorem record_degrades_iff (s : Sys) (change : Snapshot → Snapshot) (place : Place) :
    Degrades s.snapshot (s.record change place).snapshot ↔ Degrades s.snapshot (change s.snapshot) := by
  have hp : (s.record change place).snapshot.phase = (change s.snapshot).phase := trimAttempts_phase _
  have ht : (s.record change place).snapshot.terminal = (change s.snapshot).terminal :=
    trimAttempts_terminal _
  rw [Degrades, Degrades, hp, ht]

/-- On the tracker's memory a write of the worker is an `update` of the command's cache entry. -/
theorem update_entry_phase (state : State) (s : Sys) (change : Snapshot → Snapshot) (place : Place)
    {port k now : String} {ack : Nat} (hack : state.ack.lookup (port, ack) = some k)
    (hentry : state.entries.lookup k = some s.snapshot) :
    ((state.update port (some ack) change now).entries.lookup k).map Snapshot.phase =
      some (s.record change place).snapshot.phase := by
  have hput : state.update port (some ack) change now =
      state.put k (trimAttempts { change s.snapshot with updatedAt := now }) := by
    simp only [State.update, hack, hentry]
  have hlookup : (state.put k (trimAttempts { change s.snapshot with updatedAt := now })).entries.lookup k =
      some { trimAttempts { change s.snapshot with updatedAt := now } with revision := state.revision + 1 } :=
    AList.lookup_insert _
  have hrecord : (s.record change place).snapshot.phase = (change s.snapshot).phase :=
    trimAttempts_phase _
  rw [hput, hlookup, Option.map_some, hrecord]
  exact congrArg some (trimAttempts_phase _)

theorem work_degrades_iff {s s' : Sys} {o : Outcome} (h : Inv s) (hw : s.work o = some s') :
    Degrades s.snapshot s'.snapshot ↔ s.swept = true ∧ ∃ attempt, s.place = .marking attempt := by
  by_cases hm : ∃ attempt, s.place = .marking attempt
  · obtain ⟨attempt, hp⟩ := hm
    simp only [Sys.work, hp] at hw
    obtain rfl := Option.some.inj hw
    rw [record_degrades_iff]
    constructor
    · intro hd
      refine ⟨?_, attempt, hp⟩
      by_contra hs
      exact not_degrades_open (h.unswept (by simpa using hs) (by rw [hp]; rfl)) hd
    · rintro ⟨hs, -⟩
      have hphase := h.exposed hs (by rw [hp]; rfl)
      exact .inl ⟨by rw [Snapshot.terminal, hphase]; rfl, rfl⟩
  · refine iff_of_false ?_ (fun hr => hm hr.2)
    cases hp : s.place with
    | entered =>
      simp only [Sys.work, hp] at hw
      split at hw
      · obtain rfl := Option.some.inj hw
        exact not_degrades_same rfl
      · split at hw <;> obtain rfl := Option.some.inj hw <;> exact not_degrades_same rfl
    | expiring error =>
      simp only [Sys.work, hp] at hw
      obtain rfl := Option.some.inj hw
      rw [record_degrades_iff]
      exact not_degrades_precise rfl (by simp [expiredBy])
    | direct =>
      simp only [Sys.work, hp] at hw
      obtain rfl := Option.some.inj hw
      have hs := h.direct_unswept (by rw [hp]; rfl)
      exact not_degrades_open (h.unswept hs (by rw [hp]; rfl))
    | directSending =>
      simp only [Sys.work, hp] at hw
      obtain rfl := Option.some.inj hw
      exact not_degrades_same rfl
    | directSent sent =>
      simp only [Sys.work, hp] at hw
      obtain rfl := Option.some.inj hw
      have hs := h.direct_unswept (by rw [hp]; rfl)
      exact not_degrades_open (h.unswept hs (by rw [hp]; rfl))
    | trying attempt =>
      simp only [Sys.work, hp] at hw
      split at hw <;> obtain rfl := Option.some.inj hw <;> exact not_degrades_same rfl
    | marking attempt => exact absurd ⟨attempt, hp⟩ hm
    | sending attempt =>
      simp only [Sys.work, hp] at hw
      obtain rfl := Option.some.inj hw
      exact not_degrades_same rfl
    | unsent =>
      simp only [Sys.work, hp] at hw
      obtain rfl := Option.some.inj hw
      rw [record_degrades_iff]
      exact not_degrades_same rfl
    | sentOut attempt =>
      simp only [Sys.work, hp] at hw
      obtain rfl := Option.some.inj hw
      rw [record_degrades_iff]
      exact not_degrades_same rfl
    | waiting attempt =>
      simp only [Sys.work, hp] at hw
      obtain rfl := Option.some.inj hw
      rw [record_degrades_iff]
      exact not_degrades_same rfl
    | receiving attempt =>
      simp only [Sys.work, hp] at hw
      obtain rfl := Option.some.inj hw
      exact not_degrades_same rfl
    | missed attempt reason =>
      simp only [Sys.work, hp] at hw
      obtain rfl := Option.some.inj hw
      rw [record_degrades_iff]
      exact not_degrades_same rfl
    | acknowledged =>
      simp only [Sys.work, hp] at hw
      obtain rfl := Option.some.inj hw
      rw [record_degrades_iff]
      exact not_degrades_precise rfl (by simp [ackStatus])
    | failing =>
      simp only [Sys.work, hp] at hw
      obtain rfl := Option.some.inj hw
      rw [record_degrades_iff]
      exact not_degrades_guarded fun ht => by rw [ackStatus_failed_guarded ht]
    | leaving =>
      simp only [Sys.work, hp] at hw
      obtain rfl := Option.some.inj hw
      rw [record_degrades_iff]
      exact not_degrades_guarded fun ht => by rw [interrupted_guarded ht]
    | notifying =>
      simp only [Sys.work, hp] at hw
      obtain rfl := Option.some.inj hw
      rw [record_degrades_iff]
      exact not_degrades_guarded fun ht => by rw [ackStatus_failed_guarded ht]
    | channel => simp [Sys.work, hp] at hw
    | queued => simp [Sys.work, hp] at hw
    | done => simp [Sys.work, hp] at hw

/-- A step degrades the evidence exactly when it is one of the two races. -/
theorem step_degrades_iff {s s' : Sys} {a : Action} (h : Inv s) (hstep : step s a = some s') :
    Degrades s.snapshot s'.snapshot ↔ Race s a := by
  cases a with
  | work o => exact work_degrades_iff h hstep
  | reject reason =>
    simp only [step] at hstep
    split at hstep
    · rename_i hp
      obtain rfl := Option.some.inj hstep
      rw [record_degrades_iff]
      constructor
      · intro hd
        by_contra hs
        have hund : s.place.undecided = true := by rcases hp with hp | hp <;> rw [hp] <;> rfl
        exact not_degrades_open (h.unswept (by simpa [Race] using hs) hund) hd
      · intro hs
        have hexp : s.place.exposed = true := by rcases hp with hp | hp <;> rw [hp] <;> rfl
        exact .inr ⟨.inl (h.exposed hs hexp), rfl⟩
    · cases hstep
  | shutdown =>
    refine iff_of_false ?_ (fun hf => hf)
    simp only [step] at hstep
    split at hstep
    · obtain rfl := Option.some.inj hstep
      rw [record_degrades_iff]
      exact not_degrades_guarded fun ht => by rw [shutDown_guarded ht]
    · cases hstep
  | sweep =>
    refine iff_of_false ?_ (fun hf => hf)
    simp only [step] at hstep
    split at hstep
    · obtain rfl := Option.some.inj hstep
      refine not_degrades_guarded fun ht => ?_
      change (trimAttempts (Serial.swept s.snapshot)).phase = _
      rw [trimAttempts_phase, swept_guarded ht]
    · cases hstep
  | tick ticks =>
    refine iff_of_false ?_ (fun hf => hf)
    obtain rfl := Option.some.inj hstep
    exact not_degrades_same rfl
  | forget =>
    refine iff_of_false ?_ (fun hf => hf)
    obtain rfl := Option.some.inj hstep
    exact not_degrades_same rfl
  | enqueue | pop | panic | collect =>
    refine iff_of_false ?_ (fun hf => hf)
    simp only [step] at hstep
    split at hstep
    · obtain rfl := Option.some.inj hstep
      exact not_degrades_same rfl
    · cases hstep

open Lib.Run

/-- Along every run of the worker and the sweeper, no step degrades the evidence exactly when the
worker never rejects or marks a command whose expiry the sweeper has already recorded. -/
theorem evidence_kept_iff (submission : Submission) (retryCount clock : Nat) (v : Snapshot)
    (as : List Action) (t : Sys)
    (hrun : exec step (Sys.initial submission retryCount clock v) as = some t) :
    Meets step (fun s a => ∀ s', step s a = some s' → ¬ Degrades s.snapshot s'.snapshot)
        (Sys.initial submission retryCount clock v) as ↔
      Meets step (fun s a => ¬ Race s a) (Sys.initial submission retryCount clock v) as := by
  refine meets_congr _ _ Inv ?_ (inv_initial submission retryCount clock v) hrun
  intro s a s' h hstep
  refine ⟨inv_step h hstep, ?_⟩
  have hiff := step_degrades_iff h hstep
  constructor
  · exact fun hd hr => hd s' hstep (hiff.mpr hr)
  · intro hr s'' hs'' hd
    obtain rfl : s' = s'' := Option.some.inj (hstep.symm.trans hs'')
    exact hr (hiff.mp hd)

def sampleCommand : Snapshot :=
  newlyReserved ⟨"m", "c", "COM1", 7, "1108", ""⟩ "gateway-x" "boot-1" "2024-01-01T00:00:00.000Z" false

/-- The sweeper expires a command that still waits in the channel of a disabled port; the worker
then overwrites the expiry with its rejection. -/
theorem rejection_overwrites_expiry :
    ¬ Meets step (fun s a => ∀ s', step s a = some s' → ¬ Degrades s.snapshot s'.snapshot)
      (Sys.initial (.sendNode 5) 3 0 sampleCommand)
      [.tick 10, .collect, .sweep, .reject "port_disabled"] := by
  intro h
  have hlast := (((h.2 _ rfl).2 _ rfl).2 _ rfl).1
  exact hlast _ rfl (.inr ⟨.inl rfl, rfl⟩)

/-- One attempt that is acknowledged before the deadline. -/
def acknowledgedRun : List Action :=
  .enqueue :: .pop :: List.replicate 9 (.work ⟨true, "", "2024-01-01T00:00:00.000Z"⟩)

theorem acknowledged_run_keeps_evidence : ∃ t,
    exec step (Sys.initial (.sendNode 5) 3 0 sampleCommand) acknowledgedRun = some t ∧
      t.snapshot.phase = .ackReceived ∧
      Meets step (fun s a => ∀ s', step s a = some s' → ¬ Degrades s.snapshot s'.snapshot)
        (Sys.initial (.sendNode 5) 3 0 sampleCommand) acknowledgedRun := by
  refine ⟨_, rfl, rfl, (evidence_kept_iff (.sendNode 5) 3 0 sampleCommand acknowledgedRun _ rfl).mpr ?_⟩
  have hquiet : ∀ (s : Sys) (a : Action), s.swept = false → ¬ Race s a := by
    intro s a hs hr
    cases a <;> simp [Race, hs] at hr
  repeat' first
    | exact True.intro
    | refine ⟨hquiet _ _ rfl, ?_⟩
    | (rintro s' ⟨rfl⟩)

end RcdServer.Serial
