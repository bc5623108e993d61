import RcdServer.Lib.Trimming
import RcdServer.LowerLogs.Protocol

/-!
# The spool limit

`enforce_spool_limit` of `log_push.rs` on a queue as it comes from the spool file, with the texts of
its events. What is removed is right; but the limit is compared before the retained events get their
new identity, which may take more bytes than the old one.
-/
namespace RcdServer.LowerLogs.Spool

open Lib.Trimming

/-! ## The queue -/

structure StoredLogEvent where
  sourceId : String
  bootId : String
  sequence : Nat
  timestamp : String
  level : String
  component : String
  portId : Option String
  deviceId : Option String
  message : String
  deriving DecidableEq

def StoredLogEvent.low (e : StoredLogEvent) : Bool :=
  e.level == "TRACE" || e.level == "DEBUG" || e.level == "INFO"

def textJson (s : String) : Nat := stringBytes escapedBytes s

/-- The pairs of `serde_json::to_vec`, with the bytes of the identity apart. -/
def eventJson (bootId sequence : Nat) (e : StoredLogEvent) : Nat :=
  objectBytes ([("source_id", textJson e.sourceId), ("boot_id", bootId), ("sequence", sequence),
      ("timestamp", textJson e.timestamp), ("level", textJson e.level),
      ("component", textJson e.component)] ++ optionalField escapedBytes "port_id" e.portId ++
    optionalField escapedBytes "device_id" e.deviceId ++ [("message", textJson e.message)])

/-- An event with the end of its line. -/
def lineJson (e : StoredLogEvent) : Nat :=
  eventJson (textJson e.bootId) (numberBytes e.sequence) e + 1

def estimatedSpoolBytes (events : List StoredLogEvent) : Nat := weight lineJson events

/-- The queue of `run_worker` and the identity for what is pushed next. -/
structure State where
  events : List StoredLogEvent
  bootId : String
  nextSequence : Nat
  deriving DecidableEq

def renumber (bootId : String) (events : List StoredLogEvent) : List StoredLogEvent :=
  events.mapIdx fun i e => { e with bootId := bootId, sequence := i + 1 }

/-- The replacement is what `new_boot_id` returns. Every round of the loop removes an event. -/
def enforceSpoolLimit (limit : Nat) (replacement : String) (s : State) : State :=
  if estimatedSpoolBytes s.events ≤ limit then s
  else
    let kept := trim lineJson StoredLogEvent.low limit s.events.length s.events
    ⟨renumber replacement kept, replacement, kept.length⟩

structure PendingRecord where
  timestamp : String
  level : String
  component : String
  message : String
  deriving DecidableEq

/-- `saturating_add(1)` -/
def nextOf (sequence : Nat) : Nat := min (sequence + 1) (2 ^ 64 - 1)

/-- The loop over the drained records. -/
def push (setup : Setup) (s : State) (record : PendingRecord) : State :=
  let context := extractLogContext setup record.message
  { s with
    nextSequence := nextOf s.nextSequence
    events := s.events ++
      [⟨setup.sourceId, s.bootId, nextOf s.nextSequence, record.timestamp, record.level,
        record.component, context.1, context.2, record.message⟩] }

/-! ## What trimming is for -/

/-- An event without its identity. -/
def StoredLogEvent.content (e : StoredLogEvent) : StoredLogEvent :=
  { e with bootId := "", sequence := 0 }

/-- One stream that starts at 1. -/
structure Stream (s : State) : Prop where
  numbered : ∀ i e, s.events[i]? = some e → e.bootId = s.bootId ∧ e.sequence = i + 1
  next : s.nextSequence = s.events.length

/-- Some number of victims has been removed, and no more than necessary; an event above `INFO` only
if there is none of the others left. -/
structure Trimmed (limit : Nat) (replacement : String) (before : State) (after : State) : Prop where
  bounded : estimatedSpoolBytes after.events ≤ limit ∨ after.events = []
  removal : ∃ k kept, Leaves lineJson StoredLogEvent.low limit before.events k kept ∧
    (kept.filter (!·.low) ≠ before.events.filter (!·.low) → kept.filter (·.low) = []) ∧
    after.events.map (·.content) = kept.map (·.content) ∧ (k = 0 → after = before) ∧
    (0 < k → after.bootId = replacement ∧ Stream after ∧
      ∀ (setup : Setup) (records : List PendingRecord),
        after.events.length + records.length < 2 ^ 64 →
          Stream (records.foldl (push setup) after))

/-- The bytes of an event but for its identity. -/
def contentJson (e : StoredLogEvent) : Nat := eventJson 0 0 e + 1

/-- The bytes of the boot ID and of the numbers from 1 in a queue of some length. -/
def identityJson (bootId : String) (n : Nat) : Nat :=
  n * textJson bootId + ((List.range n).map fun i => numberBytes (i + 1)).sum

/-- No event has to go, or those that stay leave enough room for their new identity. -/
def Room (limit : Nat) (replacement : String) (events : List StoredLogEvent) : Prop :=
  estimatedSpoolBytes events ≤ limit ∨
    ∀ k kept, Leaves lineJson StoredLogEvent.low limit events k kept →
      weight contentJson kept + identityJson replacement kept.length ≤ limit

/-! ## Sizes -/

theorem lineJson_split (e : StoredLogEvent) :
    lineJson e = contentJson e + textJson e.bootId + numberBytes e.sequence := by
  simp only [lineJson, contentJson, eventJson, objectBytes, List.map_append, List.map_cons,
    List.sum_append, List.sum_cons, List.length_append, List.length_cons]
  omega

theorem identityJson_succ (bootId : String) (n : Nat) :
    identityJson bootId (n + 1) =
      identityJson bootId n + textJson bootId + numberBytes (n + 1) := by
  rw [identityJson, identityJson, List.range_succ, List.map_append, List.sum_append, Nat.succ_mul]
  simp only [List.map_cons, List.map_nil, List.sum_cons, List.sum_nil]
  omega

theorem renumber_concat (bootId : String) (events : List StoredLogEvent) (e : StoredLogEvent) :
    renumber bootId (events ++ [e]) =
      renumber bootId events ++ [{ e with bootId := bootId, sequence := events.length + 1 }] :=
  List.mapIdx_concat

@[simp] theorem length_renumber (bootId : String) (events : List StoredLogEvent) :
    (renumber bootId events).length = events.length :=
  List.length_mapIdx

/-- What the new identity makes of the size. -/
theorem estimatedSpoolBytes_renumber (bootId : String) (events : List StoredLogEvent) :
    estimatedSpoolBytes (renumber bootId events) =
      weight contentJson events + identityJson bootId events.length := by
  induction events using List.reverseRecOn with
  | nil => simp [renumber, estimatedSpoolBytes, weight, identityJson]
  | append_singleton events e ih =>
    have hlast : lineJson { e with bootId := bootId, sequence := events.length + 1 } =
        contentJson e + textJson bootId + numberBytes (events.length + 1) :=
      lineJson_split _
    rw [renumber_concat, List.length_append, List.length_singleton, identityJson_succ]
    simp only [estimatedSpoolBytes, weight, List.map_append, List.sum_append, List.map_cons,
      List.map_nil, List.sum_cons, List.sum_nil] at ih ⊢
    rw [hlast]
    omega

theorem content_renumber (bootId : String) (events : List StoredLogEvent) :
    (renumber bootId events).map (·.content) = events.map (·.content) := by
  induction events using List.reverseRecOn with
  | nil => rfl
  | append_singleton events e ih =>
    rw [renumber_concat, List.map_append, List.map_append, ih]
    rfl

/-! ## Streams -/

theorem stream_renumber (bootId : String) (events : List StoredLogEvent) :
    Stream ⟨renumber bootId events, bootId, events.length⟩ where
  numbered := by
    intro i e he
    rw [renumber, List.getElem?_mapIdx, Option.map_eq_some_iff] at he
    obtain ⟨_, -, rfl⟩ := he
    exact ⟨rfl, rfl⟩
  next := (length_renumber bootId events).symm

theorem Stream.push {setup : Setup} {s : State} (h : Stream s) (record : PendingRecord)
    (hlen : s.events.length + 1 < 2 ^ 64) : Stream (push setup s record) := by
  have hnext : nextOf s.nextSequence = s.events.length + 1 := by
    rw [nextOf, h.next]
    omega
  constructor
  · intro i e he
    rw [Spool.push, List.getElem?_append] at he
    split_ifs at he with hi
    · exact h.numbered i e he
    · rw [List.getElem?_singleton] at he
      split_ifs at he with hlast
      obtain rfl := Option.some.inj he
      exact ⟨rfl, hnext.trans (by omega)⟩
  · rw [Spool.push, hnext, List.length_append, List.length_singleton]

theorem Stream.push_all {setup : Setup} {records : List PendingRecord} {s : State} (h : Stream s)
    (hlen : s.events.length + records.length < 2 ^ 64) :
    Stream (records.foldl (Spool.push setup) s) := by
  induction records generalizing s with
  | nil => exact h
  | cons record records ih =>
    rw [List.length_cons] at hlen
    refine ih (h.push record (by omega)) ?_
    rw [Spool.push, List.length_append, List.length_singleton]
    omega

/-! ## The limit -/

theorem enforceSpoolLimit_of_fits {limit : Nat} {s : State}
    (h : estimatedSpoolBytes s.events ≤ limit) (replacement : String) :
    enforceSpoolLimit limit replacement s = s := if_pos h

/-- Above the limit something is removed, and all that is kept is renumbered. -/
theorem enforceSpoolLimit_of_exceeds {limit : Nat} {s : State}
    (h : limit < estimatedSpoolBytes s.events) (replacement : String) :
    ∃ k kept, 0 < k ∧ Leaves lineJson StoredLogEvent.low limit s.events k kept ∧
      enforceSpoolLimit limit replacement s =
        ⟨renumber replacement kept, replacement, kept.length⟩ := by
  set kept := trim lineJson StoredLogEvent.low limit s.events.length s.events
  obtain ⟨k, hleaves⟩ : ∃ k, Leaves lineJson StoredLogEvent.low limit s.events k kept :=
    leaves_trim s.events
  refine ⟨k, _, ?_, hleaves, if_neg (Nat.not_le.mpr h)⟩
  rcases Nat.eq_zero_or_pos k with rfl | hk
  · have hsame : weight lineJson kept = weight lineJson s.events :=
      hleaves.1.weight_eq (removed_zero s.events)
    have hfits := hleaves.2.1
    rw [hsame] at hfits
    exact absurd hfits (Nat.not_le.mpr h)
  · exact hk

theorem weight_one (events : List StoredLogEvent) : weight (fun _ => 1) events = events.length := by
  simp [weight]

/-- Trimming does what it is for if and only if the new identity finds room. -/
theorem enforceSpoolLimit_trims_iff (limit : Nat) (replacement : String) (s : State) :
    Trimmed limit replacement s (enforceSpoolLimit limit replacement s) ↔
      Room limit replacement s.events := by
  rcases Nat.lt_or_ge limit (estimatedSpoolBytes s.events) with h | h
  · obtain ⟨k, kept, hk, hleaves, hafter⟩ := enforceSpoolLimit_of_exceeds h replacement
    rw [hafter]
    constructor
    · intro htrimmed
      refine .inr ?_
      intro k' kept' hleaves'
      -- the same number of removals, so the same weights
      obtain rfl := hleaves.unique hleaves'
      have hcontent : weight contentJson kept' = weight contentJson kept :=
        hleaves'.1.weight_eq hleaves.1
      have hlen : kept'.length = kept.length := by
        rw [← weight_one, ← weight_one]
        exact hleaves'.1.weight_eq hleaves.1
      rw [hcontent, hlen, ← estimatedSpoolBytes_renumber]
      rcases htrimmed.bounded with hbounded | hnil
      · exact hbounded
      · rw [show renumber replacement kept = [] from hnil]
        exact Nat.zero_le _
    · intro hroom
      have hfits := (hroom.resolve_left (Nat.not_le.mpr h)) k kept hleaves
      refine ⟨.inl ?_, k, kept, hleaves, hleaves.1.high_first, content_renumber _ _, ?_, ?_⟩
      · rwa [estimatedSpoolBytes_renumber]
      · rintro rfl
        exact absurd hk (Nat.lt_irrefl 0)
      · intro _
        refine ⟨rfl, stream_renumber _ _, ?_⟩
        intro setup records hlen
        exact (stream_renumber replacement kept).push_all hlen
  · rw [enforceSpoolLimit_of_fits h]
    refine ⟨fun _ => .inl h, fun _ => ⟨.inl h, 0, s.events, ⟨removed_zero _, h, nofun⟩, ?_⟩⟩
    refine ⟨(removed_zero _).high_first, rfl, fun _ => rfl, ?_⟩
    exact fun hk => absurd hk (Nat.lt_irrefl 0)

/-! ## The queue of the delivery model -/

section

variable (setup : Setup) (timestampText : Nat → String)

/-- An event with its texts; all timestamps are equally long. -/
def storedEvent (e : Event) : StoredLogEvent :=
  ⟨setup.sourceId, setup.bootText e.bootId, e.sequence, timestampText e.timestamp, e.level.text,
    e.component, e.portId, e.deviceId, e.message⟩

def storedState (s : Sender) : State :=
  ⟨s.queue.map (storedEvent setup timestampText), setup.bootText s.bootId, s.nextSequence⟩

variable {setup timestampText}

theorem low_storedEvent (e : Event) : (storedEvent setup timestampText e).low = e.level.low := by
  cases hlevel : e.level <;> simp [storedEvent, StoredLogEvent.low, Level.text, Level.low, hlevel]

theorem lineJson_storedEvent (htimestamp : ∀ t, textJson (timestampText t) = 26) (e : Event) :
    lineJson (storedEvent setup timestampText e) = eventBytes setup e + 1 := by
  rw [lineJson, eventJson, storedEvent, htimestamp]
  rfl

theorem dropUntil_eq_trim (n : Nat) (events : List Event) :
    dropUntil setup n events =
      trim (fun e => eventBytes setup e + 1) (fun e => e.level.low) setup.spoolMaxBytes n
        events := by
  induction n generalizing events with
  | zero => rfl
  | succ n ih =>
    rw [dropUntil, ih]
    rfl

/-- The delivery model trims as this one does. -/
theorem enforceSpoolLimit_stored (htimestamp : ∀ t, textJson (timestampText t) = 26) (s : Sender)
    (boot : Nat) :
    enforceSpoolLimit setup.spoolMaxBytes (setup.bootText boot)
        (storedState setup timestampText s) =
      storedState setup timestampText
        (if LowerLogs.estimatedSpoolBytes setup s.queue ≤ setup.spoolMaxBytes then s
          else s.rebased setup boot) := by
  have hsize : lineJson ∘ storedEvent setup timestampText = fun e => eventBytes setup e + 1 :=
    funext (lineJson_storedEvent htimestamp)
  have hlow : StoredLogEvent.low ∘ storedEvent setup timestampText = fun e => e.level.low :=
    funext low_storedEvent
  have hbytes : estimatedSpoolBytes (storedState setup timestampText s).events =
      LowerLogs.estimatedSpoolBytes setup s.queue := by
    rw [storedState, estimatedSpoolBytes, weight_map, hsize]
    rfl
  rw [enforceSpoolLimit, hbytes]
  split_ifs
  · rfl
  · simp only [storedState, List.length_map, trim_map, hsize, hlow, ← dropUntil_eq_trim]
    simp only [Sender.rebased, State.mk.injEq, and_true]
    refine List.ext_getElem (by simp [renumber, rebase]) ?_
    intro i _ _
    simp [renumber, rebase, storedEvent]

end

/-! ## A full spool at the smallest limit -/

def longMessage (n : Nat) : String := String.ofList (List.replicate n 'x')

def blankEvent : StoredLogEvent :=
  ⟨"lower-1", "", 0, "2026-01-01T08:00:00.000Z", "ERROR", "serial", none, none, ""⟩

def errorEvent (n : Nat) : StoredLogEvent := { blankEvent with message := longMessage n }

def oldRecord : StoredLogEvent :=
  { blankEvent with bootId := "185d3a0c5f2e0000-1a2", sequence := 7, level := "INFO" }

def fullErrors : List StoredLogEvent :=
  renumber "185d3a0c5f2e4b00-1a2" (List.replicate 64 (errorEvent 16224))

/-- A record of an earlier run, and the errors of this one. -/
def fullState : State := ⟨oldRecord :: fullErrors, "185d3a0c5f2e4b00-1a2", 64⟩

theorem textJson_longMessage (n : Nat) : textJson (longMessage n) = n + 2 := by
  have hone : escapedBytes 'x' = 1 := rfl
  rw [textJson, longMessage, stringBytes, String.toList_ofList, List.map_replicate,
    List.sum_replicate_nat, hone, Nat.mul_one, Nat.add_comm]

theorem contentJson_message (e : StoredLogEvent) (message : String) :
    contentJson { e with message := message } + 2 =
      contentJson { e with message := "" } + textJson message := by
  have hempty : textJson "" = 2 := rfl
  simp only [contentJson, eventJson, objectBytes, List.map_append, List.map_cons, List.sum_append,
    List.sum_cons, List.length_append, List.length_cons, hempty]
  omega

theorem contentJson_errorEvent (n : Nat) : contentJson (errorEvent n) = n + 136 := by
  have h : contentJson (errorEvent n) + 2 =
      contentJson { blankEvent with message := "" } + textJson (longMessage n) :=
    contentJson_message blankEvent (longMessage n)
  have hblank : contentJson { blankEvent with message := "" } = 136 := by decide
  rw [hblank, textJson_longMessage] at h
  omega

theorem renumber_renumber (bootId bootId' : String) (events : List StoredLogEvent) :
    renumber bootId (renumber bootId' events) = renumber bootId events := by
  rw [renumber, renumber, List.mapIdx_mapIdx]
  rfl

theorem estimatedSpoolBytes_fullErrors (bootId : String) :
    estimatedSpoolBytes (renumber bootId fullErrors) =
      64 * 16360 + identityJson bootId 64 := by
  rw [fullErrors, renumber_renumber, estimatedSpoolBytes_renumber, List.length_replicate, weight,
    List.map_replicate, List.sum_replicate_nat, contentJson_errorEvent]

theorem enforceSpoolLimit_fullState (replacement : String) :
    enforceSpoolLimit (1024 * 1024) replacement fullState =
      ⟨renumber replacement fullErrors, replacement, 64⟩ := by
  have hlen : fullErrors.length = 64 := by
    rw [fullErrors, length_renumber, List.length_replicate]
  have hidentity : identityJson "185d3a0c5f2e4b00-1a2" 64 = 1527 := by decide
  have herrors : weight lineJson fullErrors = 64 * 16360 + 1527 := by
    have h := estimatedSpoolBytes_fullErrors "185d3a0c5f2e4b00-1a2"
    rwa [fullErrors, renumber_renumber, hidentity] at h
  have hrecord : lineJson oldRecord = 158 := by decide
  have hlow : oldRecord.low = true := by decide
  have hbefore : ¬ weight lineJson (oldRecord :: fullErrors) ≤ 1024 * 1024 := by
    rw [weight_cons]
    omega
  have hkept : trim lineJson StoredLogEvent.low (1024 * 1024) fullState.events.length
      fullState.events = fullErrors := by
    rw [fullState, List.length_cons, trim, if_neg hbefore, dropVictim_cons_low hlow,
      trim_of_fits (by omega)]
  simp only [enforceSpoolLimit, hkept, hlen]
  exact if_neg hbefore

/-- The errors fit into a mebibyte under the old boot ID, but not under one with a longer process
number. -/
theorem enforceSpoolLimit_exceeds :
    ¬ Trimmed (1024 * 1024) "185d3a0c5f2e4c00-1a2b" fullState
      (enforceSpoolLimit (1024 * 1024) "185d3a0c5f2e4c00-1a2b" fullState) := by
  intro h
  have hafter := h.bounded
  rw [enforceSpoolLimit_fullState] at hafter
  change estimatedSpoolBytes (renumber "185d3a0c5f2e4c00-1a2b" fullErrors) ≤ 1024 * 1024 ∨
    renumber "185d3a0c5f2e4c00-1a2b" fullErrors = [] at hafter
  have hidentity : identityJson "185d3a0c5f2e4c00-1a2b" 64 = 1591 := by decide
  have hbytes := estimatedSpoolBytes_fullErrors "185d3a0c5f2e4c00-1a2b"
  rcases hafter with hbounded | hnil
  · omega
  · rw [hnil, hidentity] at hbytes
    exact absurd hbytes (by decide)

end RcdServer.LowerLogs.Spool
