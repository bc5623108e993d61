import Mathlib.Algebra.GroupWithZero.Nat
import Mathlib.Data.List.Basic
import RcdServer.Lib.Text

/-!
# Log events of the lower and what both sides check of them

The event of `log_push.rs` with its encodings, the batches cut from the queue, the spool limit, and
the checks that `api/lower_logs.go`, `lowerlogs/service.go` and `lowerlogs/store.go` apply to a
batch. There is one source; a boot is the number of the identifier in the order in which
`new_boot_id` made them, so boot identifiers are unique.
-/
namespace RcdServer.LowerLogs

open Lib.Text

/-- `log::Level`, written in capitals by the sender. -/
inductive Level where
  | trace
  | debug
  | info
  | warn
  | error
  deriving DecidableEq

def Level.text : Level → String
  | .trace => "TRACE"
  | .debug => "DEBUG"
  | .info => "INFO"
  | .warn => "WARN"
  | .error => "ERROR"

def Level.low : Level → Bool
  | .trace | .debug | .info => true
  | .warn | .error => false

/-- A record after the logger has cut its texts. The time is in milliseconds since 1970. -/
structure PendingRecord where
  timestamp : Nat
  level : Level
  component : String
  message : String
  deriving DecidableEq

/-- `StoredLogEvent`, without the source that all events share. -/
structure Event where
  bootId : Nat
  sequence : Nat
  timestamp : Nat
  level : Level
  component : String
  portId : Option String
  deviceId : Option String
  message : String
  deriving DecidableEq

/-! ## Texts of the logger -/

/-- The longest run of whole characters within the limit. -/
def charBoundary (maxBytes : Nat) : List Char → List Char
  | [] => []
  | c :: cs =>
    if c.utf8Size ≤ maxBytes then c :: charBoundary (maxBytes - c.utf8Size) cs else []

def textBytes (s : String) : Nat := (s.toList.map Char.utf8Size).sum

/-- The ellipsis comes on top of the limit. -/
def truncateUtf8 (value : String) (maxBytes : Nat) : String :=
  if textBytes value ≤ maxBytes then value
  else String.ofList (charBoundary maxBytes value.toList ++ ['…'])

def maxMessageBytes : Nat := 16 * 1024

/-- `enqueue`: what the logger hands over for one record. -/
def pendingRecord (timestamp : Nat) (level : Level) (target message : String) : PendingRecord :=
  ⟨timestamp, level, truncateUtf8 target 256, truncateUtf8 message maxMessageBytes⟩

/-- The text behind the first occurrence of the pattern. -/
def findAfter (pattern : List Char) : List Char → Option (List Char)
  | [] => if pattern.isEmpty then some [] else none
  | c :: cs =>
    if pattern.isPrefixOf (c :: cs) then some ((c :: cs).drop pattern.length)
    else findAfter pattern cs

/-- `split_whitespace().next()`. -/
def firstWord (cs : List Char) : Option (List Char) :=
  match (cs.dropWhile isWhiteSpace).takeWhile (!isWhiteSpace ·) with
  | [] => none
  | word => some word

/-- `split_whitespace().find(..)`, with a bound on the number of words. -/
def findWord (p : List Char → Bool) : Nat → List Char → Option (List Char)
  | 0, _ => none
  | n + 1, cs =>
    match firstWord cs with
    | none => none
    | some word =>
      if p word then some word
      else findWord p n ((cs.dropWhile isWhiteSpace).drop word.length)

def isTokenEdge (c : Char) : Bool :=
  c == ',' || c == ';' || c == ']' || c == ')' || c == '"' || c.toNat == 39

def cleanToken (value : List Char) : String :=
  String.ofList
    (((value.dropWhile isTokenEdge).reverse.dropWhile isTokenEdge).reverse.take 128)

def extractToken (message : String) (starts : List String) : Option String :=
  starts.findSome? fun start =>
    ((findAfter start.toList message.toList).bind firstWord).bind fun word =>
      if cleanToken word = "" then none else some (cleanToken word)

/-- A source or boot identifier for the manager: 1..128 bytes, none of them below the blank. -/
def validIdentity (s : String) : Bool :=
  s ≠ "" && textBytes s ≤ 128 && s.toList.all (0x20 ≤ ·.toNat)

/-- What a deployment fixes, with the checks of `resolved` on the source. `jsonContext` is the
reading of a message that is a JSON object by `serde_json`, with the texts of its `port_id` and
`device_id`; `bootText` is the text of a boot identifier, two hexadecimal numbers. -/
structure Setup where
  sourceId : String
  bootText : Nat → String
  jsonContext : String → Option (Option String × Option String)
  spoolMaxBytes : Nat
  sourceId_resolved :
    sourceId ≠ "" ∧ textBytes sourceId ≤ 128 ∧ sourceId.toList.any isControl = false
  bootText_valid : ∀ b, validIdentity (bootText b) = true

theorem Setup.sourceId_valid (setup : Setup) : validIdentity setup.sourceId = true := by
  obtain ⟨hne, hlen, hcontrol⟩ := setup.sourceId_resolved
  have hblank : ∀ c ∈ setup.sourceId.toList, 0x20 ≤ c.toNat := by
    intro c hc
    have h := List.any_eq_false.mp hcontrol c hc
    simp only [isControl, Bool.or_eq_true, decide_eq_true_eq, not_or] at h
    omega
  simp only [validIdentity, Bool.and_eq_true, decide_eq_true_eq, List.all_eq_true]
  exact ⟨⟨hne, hlen⟩, hblank⟩

def extractLogContext (setup : Setup) (message : String) : Option String × Option String :=
  match if message.toList.head? = some '\x7b' then setup.jsonContext message else none with
  | some context => context
  | none =>
    ((extractToken message ["port_id=", "port=", "串口="]).or
        ((findWord ("/dev/tty".toList.isPrefixOf ·) message.toList.length message.toList).map
          cleanToken),
      extractToken message ["device_id=", "device=", "站点="])

/-! ## Sizes of the JSON texts -/

/-- `"name":value` pairs between braces and with commas. -/
def objectBytes (fields : List (String × Nat)) : Nat :=
  2 + (fields.map fun f => textBytes f.1 + 3 + f.2).sum + (fields.length - 1)

def arrayBytes (values : List Nat) : Nat := 2 + values.sum + (values.length - 1)

def numberBytes (n : Nat) : Nat := (Nat.toDigits 10 n).length

/-- The escapes that both encoders write: two bytes with a short form, six without. -/
def escapedBytes (c : Char) : Nat :=
  if c = '"' ∨ c = '\\' ∨ c.toNat ∈ [8, 9, 10, 12, 13] then 2
  else if c.toNat < 0x20 then 6 else c.utf8Size

/-- `encoding/json` also escapes what HTML could take for markup. -/
def escapedBytesGo (c : Char) : Nat :=
  if c = '<' ∨ c = '>' ∨ c = '&' ∨ c.toNat = 0x2028 ∨ c.toNat = 0x2029 then 6
  else escapedBytes c

def stringBytes (escaped : Char → Nat) (s : String) : Nat := 2 + (s.toList.map escaped).sum

def optionalField (escaped : Char → Nat) (name : String) : Option String → List (String × Nat)
  | none => []
  | some value => [(name, stringBytes escaped value)]

/-- `serde_json::to_vec` of an event; the timestamp has 24 characters. -/
def eventBytes (setup : Setup) (e : Event) : Nat :=
  let text := stringBytes escapedBytes
  objectBytes ([("source_id", text setup.sourceId), ("boot_id", text (setup.bootText e.bootId)),
      ("sequence", numberBytes e.sequence), ("timestamp", 26), ("level", text e.level.text),
      ("component", text e.component)] ++ optionalField escapedBytes "port_id" e.portId ++
    optionalField escapedBytes "device_id" e.deviceId ++ [("message", text e.message)])

/-- `serde_json::to_vec` of the `LogBatch` that `post_batch` sends. -/
def bodyBytes (setup : Setup) : List Event → Nat
  | [] => 0
  | first :: rest =>
    let text := stringBytes escapedBytes
    objectBytes [("source_id", text setup.sourceId),
      ("boot_id", text (setup.bootText first.bootId)),
      ("first_sequence", numberBytes first.sequence),
      ("events", arrayBytes ((first :: rest).map (eventBytes setup)))]

/-- The fraction of a second without its trailing zeros, with the point before it. -/
def fractionBytes : Nat → Nat → Nat
  | 0, _ => 0
  | n + 1, value => if value % 10 = 0 then fractionBytes n (value / 10) else n + 2

/-- `json.Marshal` of the line of an event; empty identifiers are omitted. The time of receipt is
in nanoseconds. -/
def lineBytes (setup : Setup) (receivedAt : Nat) (e : Event) : Nat :=
  let text := stringBytes escapedBytesGo
  objectBytes ([("source_id", text setup.sourceId), ("boot_id", text (setup.bootText e.bootId)),
      ("sequence", numberBytes e.sequence),
      ("timestamp", 22 + fractionBytes 3 (e.timestamp % 1000)),
      ("received_at", 22 + fractionBytes 9 (receivedAt % 1000000000)),
      ("level", text e.level.text), ("component", text e.component)] ++
    optionalField escapedBytesGo "port_id" (e.portId.filter (· ≠ "")) ++
    optionalField escapedBytesGo "device_id" (e.deviceId.filter (· ≠ "")) ++
    [("message", text e.message)])

/-! ## The sender's queue -/

def nextBatch (pending : List Event) (max : Nat) : List Event :=
  match pending with
  | [] => []
  | first :: _ => (pending.takeWhile fun e => e.bootId = first.bootId).take max

structure Ack where
  bootId : Nat
  acceptedThrough : Nat
  deriving DecidableEq

/-- The checks of `post_batch` on a reply; `none` is a reply with an error status. -/
def postBatch (events : List Event) (reply : Option Ack) : Option Nat :=
  match events, reply with
  | first :: rest, some ack =>
    if ack.bootId ≠ first.bootId then none
    else if ack.acceptedThrough < first.sequence then none
    else if ((first :: rest).getLast (by simp)).sequence < ack.acceptedThrough then none
    else some ack.acceptedThrough
  | _, _ => none

def estimatedSpoolBytes (setup : Setup) (events : List Event) : Nat :=
  (events.map fun e => eventBytes setup e + 1).sum

/-- The first record of a low level, else the oldest one. -/
def dropCandidate (events : List Event) : List Event :=
  match events.findIdx? fun e => e.level.low with
  | some i => events.eraseIdx i
  | none => events.tail

/-- The loop of `enforce_spool_limit`; every pass removes one event. -/
def dropUntil (setup : Setup) : Nat → List Event → List Event
  | 0, events => events
  | n + 1, events =>
    if estimatedSpoolBytes setup events ≤ setup.spoolMaxBytes then events
    else dropUntil setup n (dropCandidate events)

theorem length_dropCandidate (events : List Event) :
    (dropCandidate events).length = events.length - 1 := by
  unfold dropCandidate
  split
  · next i hi =>
    obtain ⟨hlt, -⟩ := List.findIdx?_eq_some_iff_getElem.mp hi
    exact List.length_eraseIdx_of_lt hlt
  · exact List.length_tail

/-- One pass for each event is enough for the loop to end below the limit. -/
theorem estimatedSpoolBytes_dropUntil (setup : Setup) {n : Nat} {events : List Event}
    (h : events.length ≤ n) :
    estimatedSpoolBytes setup (dropUntil setup n events) ≤ setup.spoolMaxBytes := by
  induction n generalizing events with
  | zero =>
    obtain rfl : events = [] := List.length_eq_zero_iff.mp (Nat.le_zero.mp h)
    exact Nat.zero_le _
  | succ n ih =>
    rw [dropUntil]
    split
    · assumption
    · refine ih ?_
      have := length_dropCandidate events
      omega

/-- The retained backlog as one new stream. -/
def rebase (bootId : Nat) (events : List Event) : List Event :=
  events.mapIdx fun i e => { e with bootId := bootId, sequence := i + 1 }

/-! ## The manager's checks -/

def maxLowerLogCompressedBody : Nat := 1 <<< 20
def maxLowerLogEvents : Nat := 500
def maxLowerLogMessageBytes : Nat := 16 <<< 10
def maxJSONLineBytes : Nat := 64 <<< 10

/-- The limits on the fields of one event. Level and time always pass: a level is one of five, and
the sender's clock never shows the year 1. -/
def withinLimits (e : Event) : Bool :=
  textBytes e.component ≤ 256 && textBytes (e.portId.getD "") ≤ 256 &&
    textBytes (e.deviceId.getD "") ≤ 128 && textBytes e.message ≤ maxLowerLogMessageBytes

def validateLowerLogBatch (setup : Setup) (events : List Event) : Bool :=
  match events with
  | [] => false
  | first :: _ =>
    validIdentity setup.sourceId && validIdentity (setup.bootText first.bootId) &&
      first.sequence != 0 && events.length ≤ maxLowerLogEvents &&
      events.zipIdx.all fun (e, i) =>
        e.bootId == first.bootId && e.sequence == first.sequence + i && withinLimits e

/-- What `IngestLowerLogs` makes of a batch and the cursor of its boot: an acknowledgement at once,
an error, or events to append. -/
inductive Ingest where
  | ack (through : Nat)
  | refused
  | append (values : List Event)

def ingestLowerLogs (accepted : Nat) (events : List Event) : Ingest :=
  match events.getLast? with
  | none => .refused
  | some last =>
    if last.sequence ≤ accepted then .ack accepted
    else
      match events.dropWhile fun e => e.sequence ≤ accepted with
      | [] => .ack accepted
      | e :: rest => if e.sequence ≠ accepted + 1 then .refused else .append (e :: rest)

end RcdServer.LowerLogs
