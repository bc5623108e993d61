import RcdServer.Communicate.Freshness

/-!
# Sending into silence

What the schedule of a connection knows of its decoder, turn by turn. The schedule keeps one time
stamp for the partial frame; it is there as long as the decoder holds bytes, and it is no younger
than the round that last found the buffer empty or accepted a payload.
-/
namespace RcdServer.Communicate.Stream

open Points

variable {F32 F64 : Type} {w : Receiver}

/-- The schedule regards a partial frame as pending exactly when the decoder holds one. -/
def Conn.Agrees (c : Conn F32 F64) : Prop :=
  c.schedule.partialSince.isSome = c.decoder.hasPartialFrame

/-- `write_once` has been called. -/
def Sent.transmits : Sent → Bool
  | .written => true
  | .writeError _ => true
  | _ => false

/-- A turn of the loop with the state it starts from. -/
structure Turn (F32 F64 : Type) where
  before : Conn F32 F64
  round : Round

namespace Turn

/-- The readings of the clock do not decrease. -/
structure After (now : Instant) (t : Turn F32 F64) : Prop where
  received : now ≤ t.round.received
  checked : t.round.received ≤ t.round.checked
  sentAt : t.round.checked ≤ t.round.sentAt

def hears (t : Turn F32 F64) : Bool :=
  match t.round.read with
  | .bytes chunk => !chunk.isEmpty
  | _ => false

/-- The decoder has accepted a payload. -/
def accepts (w : Receiver) (t : Turn F32 F64) : Bool :=
  match t.round.read with
  | .bytes chunk =>
    match (t.before.decoder.feed w.codec chunk).1 with
    | .ok frames => !frames.payloads.isEmpty
    | .error _ => false
  | _ => false

section

variable [Zero F32] [Zero F64] [Floating F32] [Floating F64] (w : Receiver) (t : Turn F32 F64)

def heard : Conn F32 F64 × Flow := t.before.receive w t.round

/-- The state in which `may_send` is asked. -/
def decided : Conn F32 F64 × Flow :=
  andThen (andThen (t.heard w) (Conn.expire w t.round)) (Conn.checkTimeout w t.round)

def ended : Conn F32 F64 × Flow := t.before.round w t.round

/-- The turn takes a transmit slot, to send or to skip it. -/
def Slot : Prop :=
  (t.decided w).2 = .go ∧ (t.decided w).1.schedule.maySend t.round.checked = true

def Writes : Prop := t.Slot w ∧ t.round.sent.transmits = true

/-- The turn goes on with bytes in the buffer. -/
def LeavesPartial : Prop :=
  (t.ended w).2 = .go ∧ (t.ended w).1.decoder.hasPartialFrame = true

end

end Turn

/-- The turns of a connection, the newest first. Between two turns other workers may have written to
the store. -/
inductive Running [Zero F32] [Zero F64] [Floating F32] [Floating F64] (w : Receiver)
    (scheduled : Instant) : List (Turn F32 F64) → Prop where
  | first {t : Turn F32 F64} {store : Store F32 F64} {decoder : FrameDecoder}
      {lastValid : Instant} (hnew : FrameDecoder.new w.port.limits = .ok decoder)
      (hbefore : t.before = .new w store decoder scheduled lastValid)
      (hclock : t.After scheduled) : Running w scheduled [t]
  | next {t u : Turn F32 F64} {past : List (Turn F32 F64)} {c : Conn F32 F64}
      {store : Store F32 F64} (hpast : Running w scheduled (t :: past))
      (hgo : t.ended w = (c, .go)) (hbefore : u.before = { c with store := store })
      (hclock : u.After t.round.sentAt) : Running w scheduled (u :: t :: past)

/-! ## What leaves the schedule alone -/

section Timing

variable {c c' c'' : Conn F32 F64}

structure SameTiming (c c' : Conn F32 F64) : Prop where
  decoder : c'.decoder = c.decoder
  schedule : c'.schedule = c.schedule

theorem SameTiming.refl (c : Conn F32 F64) : SameTiming c c := ⟨rfl, rfl⟩

theorem SameTiming.trans (h : SameTiming c c') (h' : SameTiming c' c'') : SameTiming c c'' :=
  ⟨h'.decoder.trans h.decoder, h'.schedule.trans h.schedule⟩

theorem sameTiming_reportFrameErrors (frames : FeedResult) (late : Bool) :
    SameTiming c (c.reportFrameErrors w frames late).1 := by
  unfold Conn.reportFrameErrors
  split
  · exact .refl c
  · split <;> exact ⟨rfl, rfl⟩

theorem send_go {r : Round} (h : c.send w r = (c', .go)) :
    c.schedule.maySend r.checked = false ∧ c' = c ∨
      c.schedule.maySend r.checked = true ∧
        c' = { c with schedule := c.schedule.sentOrSkipped r.sentAt } := by
  unfold Conn.send at h
  split at h
  · rename_i hmay
    split at h
    · cases h
    · unfold Conn.disconnected at h
      split at h <;> cases h
    · cases h
      exact .inr ⟨hmay, rfl⟩
  · rename_i hmay
    cases h
    exact .inl ⟨Bool.eq_false_iff.mpr hmay, rfl⟩

variable [Zero F32] [Zero F64]

theorem sameTiming_fail (error : String) : SameTiming c (c.fail w error).1 := by
  unfold Conn.fail
  dsimp only
  split <;> exact ⟨rfl, rfl⟩

theorem sameTiming_checkTimeout (r : Round) : SameTiming c (c.checkTimeout w r).1 := by
  unfold Conn.checkTimeout
  split
  · split <;> exact ⟨rfl, rfl⟩
  · exact .refl c

variable [Floating F32] [Floating F64]

theorem sameTiming_handle (now : Instant) (clocks : Clocks) (payload : List UInt8) :
    SameTiming c (c.handle w now clocks payload).1 := by
  unfold Conn.handle
  split
  · split
    · exact .refl c
    · split
      · exact ⟨rfl, rfl⟩
      · rename_i store _ _ e _
        have hstore : SameTiming c { c with store := store } := ⟨rfl, rfl⟩
        exact hstore.trans (sameTiming_fail e.text)
  · exact .refl c
  · exact sameTiming_fail _

theorem sameTiming_handleAll (now : Instant) (clocks : Nat → Clocks)
    (payloads : List (List UInt8)) :
    SameTiming c (Conn.handleAll w now c clocks payloads).1 := by
  induction payloads generalizing c clocks with
  | nil => exact .refl c
  | cons payload payloads ih =>
    refine andThen_keeps (P := SameTiming c) (sameTiming_handle now (clocks 0) payload) ?_
    intro c' hc'
    exact hc'.trans (ih _)

end Timing

/-! ## What a turn does -/

section Turns

variable [Zero F32] [Zero F64] [Floating F32] [Floating F64]
variable {t : Turn F32 F64} {c c' : Conn F32 F64}

theorem Turn.ended_eq : t.ended w = andThen (t.decided w) (Conn.send w t.round) := rfl

/-- The time stamp survives a round only without an accepted payload. -/
def Turn.since (w : Receiver) (t : Turn F32 F64) : Option Instant :=
  if t.accepts w then none else t.before.schedule.partialSince

theorem heard_bytes {chunk : List UInt8} (hread : t.round.read = .bytes chunk)
    (h : t.heard w = (c, .go)) : chunk ≠ [] ∧
      c.schedule = { t.before.schedule with
        lastRx := t.round.received
        partialSince := if c.decoder.hasPartialFrame then
          some ((t.since w).getD t.round.received) else none } := by
  unfold Turn.heard Conn.receive at h
  simp only [hread] at h
  split at h
  swap
  · unfold Conn.disconnected at h
    split at h <;> cases h
  rename_i hlength
  refine ⟨List.ne_nil_of_length_pos hlength.1, ?_⟩
  unfold Conn.feed at h
  cases hfeed : t.before.decoder.feed w.codec chunk with
  | mk result decoder =>
    cases result with
    | error e =>
      simp only [hfeed] at h
      have hsame : SameTiming _ (c, Flow.go).1 := h ▸ sameTiming_fail (frameErrorText e)
      have hempty : decoder.hasPartialFrame = false := by
        unfold FrameDecoder.feed at hfeed
        split at hfeed
        · cases hfeed
          rfl
        · cases hfeed
      have hdecoder : c.decoder = decoder := hsame.decoder
      rw [hsame.schedule, hdecoder, hempty]
      rfl
    | ok frames =>
      simp only [hfeed] at h
      obtain ⟨mid, hreport, hall⟩ := andThen_go h
      have hmid : SameTiming { t.before with decoder := decoder } (mid, Flow.go).1 :=
        hreport ▸ sameTiming_reportFrameErrors frames false
      have hsame : SameTiming _ (c, Flow.go).1 :=
        hall ▸ sameTiming_handleAll t.round.received t.round.receivedClocks frames.payloads
      have hmidSchedule : mid.schedule = t.before.schedule := hmid.schedule
      have hdecoder : c.decoder = decoder := hsame.decoder.trans hmid.decoder
      have haccepts : t.accepts w = !frames.payloads.isEmpty := by
        simp only [Turn.accepts, hread, hfeed]
      rw [hsame.schedule, hdecoder, Turn.since, haccepts, hmidSchedule]
      cases frames.payloads.isEmpty <;> rfl

theorem heard_silent (hhears : t.hears = false) (h : t.heard w = (c, .go)) :
    SameTiming t.before c := by
  unfold Turn.hears at hhears
  cases hread : t.round.read with
  | bytes chunk =>
    obtain ⟨hne, -⟩ := heard_bytes hread h
    simp [hread, hne] at hhears
  | retry =>
    unfold Turn.heard Conn.receive at h
    simp only [hread] at h
    cases h
    exact .refl _
  | error debug =>
    unfold Turn.heard Conn.receive Conn.disconnected at h
    simp only [hread] at h
    split at h <;> cases h

theorem expire_go {r : Round} (h : c.expire w r = (c', .go)) :
    c.schedule.partialExpired r.checked = false ∧ SameTiming c c' ∨
      c'.decoder.buffer = [] ∧ c'.schedule = c.schedule.discardPartial := by
  unfold Conn.expire at h
  split at h
  · right
    obtain ⟨mid, hreport, hrest⟩ := andThen_go h
    obtain ⟨last, hall, hlast⟩ := andThen_go hrest
    have hmid : SameTiming { c with decoder := (c.decoder.recoverExpired w.codec).2 }
        (mid, Flow.go).1 := hreport ▸ sameTiming_reportFrameErrors _ true
    have hafter : SameTiming mid (last, Flow.go).1 := hall ▸ sameTiming_handleAll _ _ _
    have hsame := hmid.trans hafter
    cases hlast
    refine ⟨?_, ?_⟩
    · have hdecoder : last.decoder = (c.decoder.recoverExpired w.codec).2 := hsame.decoder
      rw [hdecoder]
      rfl
    · have hschedule : last.schedule = c.schedule := hsame.schedule
      rw [hschedule]
  · rename_i hexpired
    cases h
    exact .inl ⟨Bool.eq_false_iff.mpr hexpired, .refl c⟩

theorem decided_go (h : t.decided w = (c, .go)) : ∃ mid last, t.heard w = (mid, .go) ∧
    mid.expire w t.round = (last, .go) ∧ SameTiming last c := by
  obtain ⟨last, hlast, hcheck⟩ := andThen_go h
  obtain ⟨mid, hmid, hexpire⟩ := andThen_go hlast
  have hsame : SameTiming last (c, Flow.go).1 := hcheck ▸ sameTiming_checkTimeout t.round
  exact ⟨mid, last, hmid, hexpire, hsame⟩

/-- What the schedule knows at an instant. -/
structure Timely (w : Receiver) (now : Instant) (c : Conn F32 F64) : Prop where
  agrees : c.Agrees
  since : ∀ s, c.schedule.partialSince = some s → s ≤ now
  latest : c.schedule.lastRx ≤ now
  period : c.schedule.period = millis w.port.sendIntervalMs
  gap : c.schedule.gap = millis w.port.idleGapMs
  frameTimeout : c.schedule.frameTimeout = millis w.port.frameTimeoutMs

/-- A state inside a turn against the state that the turn started from. -/
structure Follows (w : Receiver) (now : Instant) (t : Turn F32 F64) (c : Conn F32 F64) : Prop where
  timely : Timely w now c
  since : ∀ s, c.schedule.partialSince = some s → s ≤ t.round.received
  grows : t.before.schedule.lastRx ≤ c.schedule.lastRx
  hears : t.hears = true → t.round.received ≤ c.schedule.lastRx
  due : c.schedule.due = t.before.schedule.due
  kept : ∀ s, t.since w = some s → c.decoder.hasPartialFrame = true →
    c.schedule.partialSince = some s

omit [Zero F32] [Zero F64] [Floating F32] [Floating F64] in
theorem Timely.same {now : Instant} (h : Timely w now c) (hc : SameTiming c c') :
    Timely w now c' := by
  obtain ⟨hdecoder, hschedule⟩ := hc
  refine ⟨?_, ?_, ?_, ?_, ?_, ?_⟩
  · rw [Conn.Agrees, hdecoder, hschedule]
    exact h.agrees
  all_goals rw [hschedule]
  · exact h.since
  · exact h.latest
  · exact h.period
  · exact h.gap
  · exact h.frameTimeout

omit [Zero F32] [Zero F64] [Floating F32] [Floating F64] in
theorem Timely.later {now later : Instant} (h : Timely w now c) (hle : now ≤ later) :
    Timely w later c :=
  { h with
    since := fun s hs => (h.since s hs).trans hle
    latest := h.latest.trans hle }

theorem follows_heard {now : Instant} (h : Timely w now t.before) (hclock : t.After now)
    (hgo : t.heard w = (c, .go)) : Follows w t.round.received t c := by
  have hnow := hclock.received
  cases hhears : t.hears with
  | true =>
    unfold Turn.hears at hhears
    cases hread : t.round.read with
    | bytes chunk =>
      obtain ⟨-, hschedule⟩ := heard_bytes hread hgo
      have hsince : ∀ s, t.since w = some s → s ≤ now := by
        intro s hs
        unfold Turn.since at hs
        split at hs
        · cases hs
        · exact h.since s hs
      have hstamp : ∀ s, c.schedule.partialSince = some s → s ≤ t.round.received := by
        intro s hs
        rw [hschedule] at hs
        dsimp only at hs
        split at hs
        · cases hkept : t.since w with
          | none =>
            rw [hkept] at hs
            exact (Option.some.inj hs).ge
          | some s' =>
            rw [hkept] at hs
            have hle := hsince s' hkept
            obtain rfl : s' = s := Option.some.inj hs
            exact Nat.le_trans hle hnow
        · cases hs
      refine ⟨⟨?_, hstamp, ?_, ?_, ?_, ?_⟩, hstamp, ?_, ?_, ?_, ?_⟩
      · rw [Conn.Agrees, hschedule]
        cases c.decoder.hasPartialFrame <;> rfl
      all_goals rw [hschedule]
      · exact h.period
      · exact h.gap
      · exact h.frameTimeout
      · exact h.latest.trans hnow
      · exact fun _ => le_rfl
      · intro s hs hcut
        simp only [hcut, hs, if_true, Option.getD_some]
    | retry => simp [hread] at hhears
    | error debug => simp [hread] at hhears
  | false =>
    have hsame := heard_silent hhears hgo
    have htimely := (h.later hnow).same hsame
    refine ⟨htimely, htimely.since, ?_, ?_, ?_, ?_⟩
    · rw [hsame.schedule]
    · rw [hhears]
      exact fun hfalse => nomatch hfalse
    · rw [hsame.schedule]
    · intro s hs _
      unfold Turn.since at hs
      split at hs
      · cases hs
      · rw [hsame.schedule, hs]

theorem follows_decided {now : Instant} (h : Timely w now t.before) (hclock : t.After now)
    (hgo : t.decided w = (c, .go)) : Follows w t.round.checked t c ∧
      ∀ s, c.schedule.partialSince = some s →
        t.round.checked < s + millis w.port.frameTimeoutMs := by
  obtain ⟨mid, last, hheard, hexpire, hsame⟩ := decided_go hgo
  have hmid := follows_heard h hclock hheard
  have hlater := hmid.timely.later hclock.checked
  rcases expire_go hexpire with ⟨hfresh, hlast⟩ | ⟨hempty, hlast⟩
  · have hc := hlast.trans hsame
    refine ⟨⟨hlater.same hc, ?_, ?_, ?_, ?_, ?_⟩, ?_⟩
    all_goals rw [hc.schedule]
    · exact hmid.since
    · exact hmid.grows
    · exact hmid.hears
    · exact hmid.due
    · rw [hc.decoder]
      exact hmid.kept
    · intro s hs
      rw [Schedule.partialExpired, hs, Option.any_some, decide_eq_false_iff_not,
        hmid.timely.frameTimeout] at hfresh
      exact Nat.lt_of_not_le fun hle => hfresh (Nat.le_sub_of_add_le' hle)
  · have hnone : c.schedule.partialSince = none := by
      rw [hsame.schedule, hlast]
      rfl
    have hbuffer : c.decoder.hasPartialFrame = false := by
      rw [hsame.decoder, FrameDecoder.hasPartialFrame, hempty]
      rfl
    refine ⟨⟨⟨?_, ?_, ?_, ?_, ?_, ?_⟩, ?_, ?_, ?_, ?_, ?_⟩, ?_⟩
    · rw [Conn.Agrees, hnone, hbuffer]
      rfl
    · simp [hnone]
    · rw [hsame.schedule, hlast]
      exact hlater.latest
    · rw [hsame.schedule, hlast]
      exact hlater.period
    · rw [hsame.schedule, hlast]
      exact hlater.gap
    · rw [hsame.schedule, hlast]
      exact hlater.frameTimeout
    · simp [hnone]
    · rw [hsame.schedule, hlast]
      exact hmid.grows
    · rw [hsame.schedule, hlast]
      exact hmid.hears
    · rw [hsame.schedule, hlast]
      exact hmid.due
    · simp [hbuffer]
    · simp [hnone]

end Turns

/-! ## Runs of a connection -/

section Runs

variable [Zero F32] [Zero F64] [Floating F32] [Floating F64]
variable {scheduled : Instant} {t : Turn F32 F64} {past : List (Turn F32 F64)}
variable {c c' : Conn F32 F64}

/-- Where the schedule stands after the turns of a connection. -/
structure Kept (w : Receiver) (scheduled now : Instant) (past : List (Turn F32 F64))
    (c : Conn F32 F64) : Prop where
  timely : Timely w now c
  delayed : scheduled + millis w.port.initialDelayMs ≤ c.schedule.due
  heard : ∀ u ∈ past, u.hears = true → u.round.received ≤ c.schedule.lastRx
  spaced : ∀ u ∈ past, u.Slot w →
    u.round.sentAt + millis w.port.sendIntervalMs ≤ c.schedule.due
  waiting : ∀ later u earlier, past = later ++ u :: earlier →
    (∀ v ∈ later ++ [u], v.LeavesPartial w) → (∀ v ∈ later, v.accepts w = false) →
    ∃ s, c.schedule.partialSince = some s ∧ s ≤ u.round.received

theorem Kept.same {now : Instant} (h : Kept w scheduled now past c) (hc : SameTiming c c') :
    Kept w scheduled now past c' := by
  refine ⟨h.timely.same hc, ?_, ?_, ?_, ?_⟩
  all_goals rw [hc.schedule]
  · exact h.delayed
  · exact h.heard
  · exact h.spaced
  · exact h.waiting

theorem kept_new {store : Store F32 F64} {decoder : FrameDecoder} {lastValid : Instant}
    (hnew : FrameDecoder.new w.port.limits = .ok decoder) :
    Kept w scheduled scheduled [] (.new w store decoder scheduled lastValid) := by
  obtain ⟨-, rfl⟩ := new_eq_ok hnew
  refine ⟨⟨rfl, ?_, le_rfl, rfl, rfl, rfl⟩, le_rfl, ?_, ?_, ?_⟩
  · simp [Conn.new, Schedule.new]
  · simp
  · simp
  · intro later u earlier hpast
    simp at hpast

theorem maySend_iff {s : Schedule} {now : Instant} :
    s.maySend now = true ↔ s.due ≤ now ∧ s.partialSince = none ∧ s.gap ≤ now - s.lastRx := by
  simp [Schedule.maySend, and_assoc]

/-- What is due after a turn, and that a slot leaves no partial frame. -/
theorem ended_due {now : Instant} (h : Timely w now t.before) (hclock : t.After now)
    (hgo : t.ended w = (c, .go)) : t.before.schedule.due ≤ c.schedule.due ∧
      (t.Slot w → t.round.sentAt + millis w.port.sendIntervalMs ≤ c.schedule.due) ∧
      ∃ mid, t.decided w = (mid, .go) ∧ c.decoder = mid.decoder ∧
        c.schedule = { mid.schedule with due := c.schedule.due } := by
  rw [Turn.ended_eq] at hgo
  obtain ⟨mid, hmid, hsend⟩ := andThen_go hgo
  obtain ⟨hfollows, -⟩ := follows_decided h hclock hmid
  rcases send_go hsend with ⟨hmay, rfl⟩ | ⟨hmay, rfl⟩
  · refine ⟨hfollows.due.ge, ?_, c, hmid, rfl, rfl⟩
    intro hslot
    have := hslot.2
    rw [hmid, hmay] at this
    cases this
  · obtain ⟨hdue, -, -⟩ := maySend_iff.mp hmay
    rw [hfollows.due] at hdue
    have hperiod := hfollows.timely.period
    refine ⟨?_, ?_, mid, hmid, rfl, rfl⟩
    · exact (hdue.trans hclock.sentAt).trans (Nat.le_add_right _ _)
    · intro _
      rw [← hperiod]
      exact le_rfl

theorem Kept.turn {now : Instant} (h : Kept w scheduled now past t.before) (hclock : t.After now)
    (hgo : t.ended w = (c, .go)) : Kept w scheduled t.round.sentAt (t :: past) c := by
  obtain ⟨hdue, hslot, mid, hmid, hdecoder, hschedule⟩ := ended_due h.timely hclock hgo
  obtain ⟨hfollows, -⟩ := follows_decided h.timely hclock hmid
  have hstamp : c.schedule.partialSince = mid.schedule.partialSince := by rw [hschedule]
  have hlast : c.schedule.lastRx = mid.schedule.lastRx := by rw [hschedule]
  have htimely := hfollows.timely.later hclock.sentAt
  refine ⟨⟨?_, ?_, ?_, ?_, ?_, ?_⟩, h.delayed.trans hdue, ?_, ?_, ?_⟩
  · rw [Conn.Agrees, hstamp, hdecoder]
    exact htimely.agrees
  · rw [hstamp]
    exact htimely.since
  · rw [hlast]
    exact htimely.latest
  · rw [hschedule]
    exact htimely.period
  · rw [hschedule]
    exact htimely.gap
  · rw [hschedule]
    exact htimely.frameTimeout
  · intro u hu hhears
    rw [hlast]
    rcases List.mem_cons.mp hu with rfl | hu
    · exact hfollows.hears hhears
    · exact (h.heard u hu hhears).trans hfollows.grows
  · intro u hu huslot
    rcases List.mem_cons.mp hu with rfl | hu
    · exact hslot huslot
    · exact (h.spaced u hu huslot).trans hdue
  · intro later u earlier hpast hleaves haccepts
    rw [hstamp]
    cases later with
    | nil =>
      obtain ⟨rfl, rfl⟩ := List.cons.inj hpast
      -- The turn itself has left the buffer with bytes in it.
      have hcut := (hleaves t (by simp)).2
      rw [hgo, hdecoder, ← hfollows.timely.agrees] at hcut
      obtain ⟨s, hs⟩ := Option.isSome_iff_exists.mp hcut
      exact ⟨s, hs, hfollows.since s hs⟩
    | cons v later =>
      obtain ⟨rfl, rfl⟩ := List.cons.inj hpast
      obtain ⟨s, hs, hle⟩ := h.waiting later u earlier rfl
        (fun v hv => hleaves v (List.mem_cons_of_mem _ hv))
        fun v hv => haccepts v (List.mem_cons_of_mem _ hv)
      have hcut := (hleaves t (by simp)).2
      rw [hgo, hdecoder] at hcut
      have hsince : t.since w = some s := by
        rw [Turn.since, haccepts t List.mem_cons_self, hs]
        rfl
      exact ⟨s, hfollows.kept s hsince hcut, hle⟩

/-- A turn that starts from what the turn before it has left. -/
theorem Running.directly {u : Turn F32 F64} (h : Running w scheduled (t :: past))
    (hgo : (t.ended w).2 = .go) (hbefore : u.before = (t.ended w).1)
    (hclock : u.After t.round.sentAt) : Running w scheduled (u :: t :: past) := by
  have hended : t.ended w = ((t.ended w).1, .go) := Prod.ext rfl hgo
  exact .next h hended hbefore hclock

theorem Running.kept (h : Running w scheduled (t :: past)) :
    ∃ now, t.After now ∧ Kept w scheduled now past t.before := by
  generalize hrun : t :: past = turns at h
  induction h generalizing t past with
  | first hnew hbefore hclock =>
    obtain ⟨rfl, rfl⟩ := List.cons.inj hrun
    rw [hbefore]
    exact ⟨scheduled, hclock, kept_new hnew⟩
  | next hpast hgo hbefore hclock ih =>
    obtain ⟨rfl, rfl⟩ := List.cons.inj hrun
    obtain ⟨now, hnow, hkept⟩ := ih rfl
    refine ⟨_, hclock, ?_⟩
    rw [hbefore]
    exact (hkept.turn hnow hgo).same ⟨rfl, rfl⟩

/-- What a turn does after the turns before it. -/
structure Silent (w : Receiver) (scheduled : Instant) (t : Turn F32 F64)
    (past : List (Turn F32 F64)) : Prop where
  whole : t.Writes w → (t.decided w).1.decoder.hasPartialFrame = false
  quiet : t.Writes w → ∀ u ∈ t :: past, u.hears = true →
    u.round.received + millis w.port.idleGapMs ≤ t.round.checked
  delayed : t.Writes w → scheduled + millis w.port.initialDelayMs ≤ t.round.checked
  spaced : t.Writes w → ∀ u ∈ past, u.Slot w →
    u.round.sentAt + millis w.port.sendIntervalMs ≤ t.round.checked
  pending : t.before.Agrees ∧ (∀ c, t.heard w = (c, .go) → c.Agrees) ∧
    (∀ c, t.decided w = (c, .go) → c.Agrees) ∧ ∀ c, t.ended w = (c, .go) → c.Agrees
  bounded : ∀ later u earlier, t :: past = later ++ u :: earlier →
    (∀ v ∈ later ++ [u], v.LeavesPartial w) → (∀ v ∈ later, v.accepts w = false) →
    t.round.checked < u.round.received + millis w.port.frameTimeoutMs

theorem transmits_into_silence (h : Running w scheduled (t :: past)) :
    Silent w scheduled t past := by
  obtain ⟨now, hclock, hkept⟩ := h.kept
  have hslot : t.Slot w → ∃ c, t.decided w = (c, .go) ∧ c.schedule.due ≤ t.round.checked ∧
      c.schedule.partialSince = none ∧
      millis w.port.idleGapMs ≤ t.round.checked - c.schedule.lastRx := by
    rintro ⟨hgo, hmay⟩
    obtain ⟨hdue, hnone, hgap⟩ := maySend_iff.mp hmay
    have hdecided : t.decided w = ((t.decided w).1, .go) := Prod.ext rfl hgo
    obtain ⟨hfollows, -⟩ := follows_decided hkept.timely hclock hdecided
    rw [hfollows.timely.gap] at hgap
    exact ⟨_, hdecided, hdue, hnone, hgap⟩
  refine ⟨?_, ?_, ?_, ?_, ⟨hkept.timely.agrees, ?_, ?_, ?_⟩, ?_⟩
  · intro hwrites
    obtain ⟨c, hdecided, -, hnone, -⟩ := hslot hwrites.1
    obtain ⟨hfollows, -⟩ := follows_decided hkept.timely hclock hdecided
    rw [hdecided, ← hfollows.timely.agrees, hnone]
    rfl
  · intro hwrites u hu hhears
    obtain ⟨c, hdecided, -, -, hgap⟩ := hslot hwrites.1
    obtain ⟨hfollows, -⟩ := follows_decided hkept.timely hclock hdecided
    have hlast : u.round.received ≤ c.schedule.lastRx := by
      rcases List.mem_cons.mp hu with rfl | hu
      · exact hfollows.hears hhears
      · exact (hkept.heard u hu hhears).trans hfollows.grows
    have hsum := Nat.add_le_of_le_sub' hfollows.timely.latest hgap
    exact (Nat.add_le_add_right hlast _).trans hsum
  · intro hwrites
    obtain ⟨c, hdecided, hdue, -⟩ := hslot hwrites.1
    obtain ⟨hfollows, -⟩ := follows_decided hkept.timely hclock hdecided
    exact (hkept.delayed.trans hfollows.due.ge).trans hdue
  · intro hwrites u hu huslot
    obtain ⟨c, hdecided, hdue, -⟩ := hslot hwrites.1
    obtain ⟨hfollows, -⟩ := follows_decided hkept.timely hclock hdecided
    exact ((hkept.spaced u hu huslot).trans hfollows.due.ge).trans hdue
  · exact fun c hc => (follows_heard hkept.timely hclock hc).timely.agrees
  · exact fun c hc => (follows_decided hkept.timely hclock hc).1.timely.agrees
  · exact fun c hc => (hkept.turn hclock hc).timely.agrees
  · intro later u earlier hrun hleaves haccepts
    have hmem : t ∈ later ++ [u] := by
      cases later with
      | nil => simp [(List.cons.inj hrun).1]
      | cons v later => simp [(List.cons.inj hrun).1]
    have hended : t.ended w = ((t.ended w).1, .go) := Prod.ext rfl (hleaves t hmem).1
    obtain ⟨-, -, mid, hmid, -, hschedule⟩ := ended_due hkept.timely hclock hended
    obtain ⟨s, hs, hle⟩ := (hkept.turn hclock hended).waiting later u earlier hrun hleaves haccepts
    rw [hschedule] at hs
    have hfresh := (follows_decided hkept.timely hclock hmid).2 s hs
    exact hfresh.trans_le (Nat.add_le_add_right hle _)

end Runs

namespace Sample

/-- A report arrives, then the line falls silent and a slot is due. -/
def arrival : Turn Int Int where
  before := .new receiver (.new receiver.config) ⟨receiver.port.limits, []⟩ 10 11
  round := round frame

def transmission : Turn Int Int where
  before := (arrival.ended receiver).1
  round := ⟨.retry, 600000000, fun _ => ⟨7, 7, 7⟩, 600000001, fun _ => ⟨7, 7, 7⟩, .written,
    600000002⟩

end Sample

theorem transmits_into_silence_sample : Sample.transmission.Writes Sample.receiver ∧
    Silent Sample.receiver 10 Sample.transmission [Sample.arrival] := by
  have hgo : (Sample.arrival.ended Sample.receiver).2 = .go := by decide +kernel
  have hslot : (Sample.transmission.decided Sample.receiver).2 = .go ∧
      (Sample.transmission.decided Sample.receiver).1.schedule.maySend 600000001 = true := by
    decide +kernel
  have hnew : FrameDecoder.new Sample.receiver.port.limits =
      .ok ⟨Sample.receiver.port.limits, []⟩ := rfl
  have hfirst : Running Sample.receiver 10 [Sample.arrival] :=
    .first hnew rfl ⟨by decide, by decide, by decide⟩
  have hclock : Turn.After Sample.arrival.round.sentAt Sample.transmission :=
    ⟨by decide +kernel, by decide +kernel, by decide +kernel⟩
  have hrun : Running Sample.receiver 10 [Sample.transmission, Sample.arrival] :=
    hfirst.directly hgo (by rw [Sample.transmission]) hclock
  exact ⟨⟨hslot, rfl⟩, transmits_into_silence hrun⟩

end RcdServer.Communicate.Stream
