import RcdServer.Lib.Framing
import RcdServer.Serial.Assembly

/-!
# Frames do not depend on the reads

The expected length is computed again after every read from what is there so far. A primary reads
it from the third byte of the answer, a standby from the third byte behind a forward header, and
both raise it to what the device is configured with. On whole responses the three agree.
-/
namespace RcdServer.Serial

open Lib.Framing
open Protocol

/-! ## Reads -/

def Turn.bytes (turn : Turn) : List UInt8 :=
  match turn.read with
  | .data chunk => chunk
  | _ => []

/-- The read has brought something. -/
def Turn.Delivers (turn : Turn) : Prop := ∃ b chunk, turn.read = .data (b :: chunk)

namespace SerialManager

variable (m : SerialManager)

/-- The turns that an attempt does not come to. -/
def unread (buf : List UInt8) : List Turn → List Turn
  | [] => []
  | turn :: turns =>
    if m.beforeRead buf turn.drained .nothing = .nothing then
      match turn.read with
      | .data (b :: chunk) => unread (buf ++ b :: chunk) turns
      | _ => turns
    else turn :: turns

/-- What an attempt extracts, in the state it is dispatched in. -/
def extracted (turns : List Turn) : Option (SerialManager × List UInt8 × Bool) :=
  match m.assemble m.rxPending turns with
  | .frame _ raw rest => if raw = [] then none else some ((m.keepPending rest).extractFrame raw)
  | _ => none

/-- The bytes an attempt leaves the loop with, except for short direct answers. -/
def cutLen (buf : List UInt8) : Option Nat :=
  match m.completeFrameLen buf with
  | some n => some n
  | none => if buf.length ≥ readBufLen then some buf.length else none

variable {m}

theorem receiveDataAttempt_extracted {turns : List Turn} {m' : SerialManager} {frame : List UInt8}
    {attributed : Bool} (hopen : m.portOpen = true)
    (h : m.extracted turns = some (m', frame, attributed)) (reopen : Reopen) :
    m.receiveDataAttempt turns reopen = m'.dispatch frame attributed := by
  unfold extracted at h
  unfold receiveDataAttempt
  rw [if_neg (by simp [hopen])]
  split at h
  · rename_i exit raw rest hraw
    split_ifs at h with hempty
    have hextract := Option.some.inj h
    simp only [hraw, if_neg hempty, hextract]
  · cases h

/-- A pure primary and a standby do not wait for short direct answers. -/
theorem isCompleteShortDirectCandidate_eq_false
    (hmode : m.currentRun = .secondary ∨ m.runOn = .primary) (buf : List UInt8) :
    m.isCompleteShortDirectCandidate buf = false := by
  rcases hmode with hmode | hmode <;> simp [isCompleteShortDirectCandidate, hmode]

theorem beforeRead_cut (hmode : m.currentRun = .secondary ∨ m.runOn = .primary)
    {buf : List UInt8} {n : Nat} (h : m.cutLen buf = some n) :
    ∃ exit, ∀ drained next,
      m.beforeRead buf drained next = .frame exit (buf.take n) (buf.drop n) := by
  have hshort := isCompleteShortDirectCandidate_eq_false hmode buf
  unfold cutLen at h
  cases hlen : m.completeFrameLen buf with
  | some k =>
    rw [hlen] at h
    obtain rfl := Option.some.inj h
    refine ⟨.complete, fun drained next => ?_⟩
    simp only [beforeRead, hlen]
  | none =>
    simp only [hlen] at h
    split_ifs at h with hfull
    obtain rfl := Option.some.inj h
    refine ⟨.full, fun drained next => ?_⟩
    simp only [beforeRead, hlen, hshort, Bool.false_and, Bool.false_eq_true, if_false, if_pos hfull,
      List.take_length, List.drop_length]

theorem beforeRead_wait (hmode : m.currentRun = .secondary ∨ m.runOn = .primary)
    {buf : List UInt8} (h : m.cutLen buf = none) (drained : Bool) (next : Assembled) :
    m.beforeRead buf drained next = next := by
  have hshort := isCompleteShortDirectCandidate_eq_false hmode buf
  unfold cutLen at h
  cases hlen : m.completeFrameLen buf with
  | some k =>
    rw [hlen] at h
    cases h
  | none =>
    simp only [hlen] at h
    split_ifs at h with hfull
    simp only [beforeRead, hlen, hshort, Bool.false_and, Bool.false_eq_true, if_false, if_neg hfull]

/-- As long as reads bring something, the loop gathers. -/
theorem assemble_gather (hmode : m.currentRun = .secondary ∨ m.runOn = .primary)
    {buf raw rest : List UInt8} {turns left : List Turn} (hturns : ∀ t ∈ turns, t.Delivers)
    (h : gather m.cutLen Turn.bytes buf turns = some (raw, rest, left)) :
    (∃ exit, m.assemble buf turns = .frame exit raw rest) ∧ m.unread buf turns = left := by
  induction turns generalizing buf with
  | nil =>
    obtain ⟨n, hcut, hout⟩ := Option.map_eq_some_iff.mp h
    obtain ⟨rfl, hrest⟩ := Prod.mk.inj hout
    obtain ⟨rfl, rfl⟩ := Prod.mk.inj hrest
    obtain ⟨exit, hexit⟩ := beforeRead_cut hmode hcut
    exact ⟨⟨exit, hexit _ _⟩, rfl⟩
  | cons turn turns ih =>
    cases hcut : m.cutLen buf with
    | some n =>
      rw [gather_complete hcut] at h
      obtain ⟨rfl, hrest⟩ := Prod.mk.inj (Option.some.inj h)
      obtain ⟨rfl, rfl⟩ := Prod.mk.inj hrest
      obtain ⟨exit, hexit⟩ := beforeRead_cut hmode hcut
      exact ⟨⟨exit, hexit _ _⟩, by simp [unread, hexit]⟩
    | none =>
      rw [gather_incomplete hcut] at h
      obtain ⟨b, chunk, hread⟩ := hturns turn List.mem_cons_self
      have hbytes : turn.bytes = b :: chunk := by simp [Turn.bytes, hread]
      rw [hbytes] at h
      obtain ⟨⟨exit, hassemble⟩, hleft⟩ := ih (fun t ht => hturns t (List.mem_cons_of_mem _ ht)) h
      refine ⟨⟨exit, ?_⟩, ?_⟩
      · simp only [assemble, beforeRead_wait hmode hcut, hread]
        exact hassemble
      · simp only [unread, beforeRead_wait hmode hcut, hread, if_true]
        exact hleft

end SerialManager

/-! ## Responses -/

/-- A valid response of the device, which is configured with one of the two meanings of
`data_len`. -/
structure ResponseOf (dev : DeviceConfig) (frame : List UInt8) : Prop where
  checksum : verifyChecksum frame = true
  length : frame.length = byteAt frame 2 + 5
  declared : byteAt frame 2 = dev.config.dataLen.toNat ∨
    byteAt frame 2 + 1 = dev.config.dataLen.toNat

theorem byteAt_of_getElem? {buf buf' : List UInt8} {i j : Nat} (h : buf[i]? = buf'[j]?) :
    byteAt buf i = byteAt buf' j := by
  rw [byteAt, byteAt, List.getD_eq_getElem?_getD, List.getD_eq_getElem?_getD, h]

theorem getElem?_of_part {buf whole : List UInt8} (h : buf <+: whole) {i : Nat}
    (hi : i < buf.length) : buf[i]? = whole[i]? := by
  obtain ⟨missing, rfl⟩ := h
  rw [List.getElem?_append_left hi]

theorem ResponseOf.byte {dev : DeviceConfig} {frame : List UInt8} (h : ResponseOf dev frame) :
    ∃ b, frame[2]? = some b ∧ b.toNat = byteAt frame 2 := by
  have hlen := h.length
  obtain ⟨b, hb⟩ : ∃ b, frame[2]? = some b :=
    ⟨_, List.getElem?_eq_getElem (by omega)⟩
  exact ⟨b, hb, by rw [byteAt, List.getD_eq_getElem?_getD, hb]; rfl⟩

/-- Both meanings of `data_len` come to the length the response declares. -/
theorem configuredProtocolFrameLen_response {dev : DeviceConfig} {frame buf : List UInt8}
    (h : ResponseOf dev frame) (start : Nat) (hbyte : buf[start + 2]? = frame[2]?) :
    configuredProtocolFrameLen buf start dev.config.dataLen.toNat = frame.length := by
  obtain ⟨b, hb, hlen⟩ := h.byte
  have hlength := h.length
  simp only [configuredProtocolFrameLen, hbyte, hb, hlen]
  rcases h.declared with hdeclared | hdeclared
  · rw [if_neg (by omega), responseFrameOverhead]
    omega
  · rw [if_pos hdeclared, responseFrameOverheadWithStatusLen]
    omega

theorem parseDataPacket_response {dev : DeviceConfig} {frame : List UInt8}
    (h : ResponseOf dev frame) : ∃ packet, parseDataPacket frame = .ok packet := by
  have hlength := h.length
  match frame, h, hlength with
  | [], _, hlength => simp at hlength
  | [_], _, hlength => simp at hlength
  | [_, _], _, hlength => simp at hlength
  | [_, _, _], _, hlength => simp at hlength
  | addr :: cmd :: len :: b :: rest, h, hlength =>
    have hdata : len.toNat + 2 = (b :: rest).length := by
      simp only [List.length_cons, byteAt, List.getD_cons_succ, List.getD_cons_zero] at hlength ⊢
      omega
    simp only [parseDataPacket, if_neg (not_not.mpr hdata), h.checksum, Bool.not_true,
      Bool.false_eq_true, if_false]
    exact ⟨_, rfl⟩

namespace SerialManager

variable {m : SerialManager}

theorem completeFrameLen_short {buf : List UInt8} (h : buf.length < 3) :
    m.completeFrameLen buf = none := by
  rw [completeFrameLen, if_pos h]

theorem completeFrameLen_waiting {buf : List UInt8} (h : buf.length < m.expectedFrameLen buf) :
    m.completeFrameLen buf = none := by
  unfold completeFrameLen
  split_ifs with hshort
  · rfl
  · cases hconfigured : m.configuredResponseFrameLen buf with
    | none => exact if_neg (Nat.not_le.mpr h)
    | some minimum =>
      exact if_neg (Nat.not_le.mpr (Nat.lt_of_lt_of_le h (Nat.le_max_left _ _)))

/-- The lengths agree, so the frame is complete when all of it is there. -/
theorem completeFrameLen_of_lengths {buf : List UInt8} {n : Nat} (h : 3 ≤ buf.length)
    (hexpected : m.expectedFrameLen buf = n) (hconfigured : m.configuredResponseFrameLen buf = some n) :
    m.completeFrameLen buf = if n ≤ buf.length then some n else none := by
  rw [completeFrameLen, if_neg (by omega), hconfigured, hexpected]
  simp only [Nat.max_self]

/-- A primary cuts exactly the responses of the device it has polled. -/
theorem delimited_direct (hrun : m.currentRun = .primary) (hon : m.runOn = .primary)
    {dev : DeviceConfig} (hdev : m.portConfig.devices[m.index]? = some dev) {frame : List UInt8}
    (h : ResponseOf dev frame) : Delimited m.completeFrameLen frame := by
  refine Delimited.of_prefix fun buf tail hpart => ?_
  have hlength := h.length
  by_cases hshort : buf.length < 3
  · rw [completeFrameLen_short hshort, if_neg (by omega)]
  · have hbyte : buf[2]? = frame[2]? := by
      rw [getElem?_of_part hpart (by omega), List.getElem?_append_left (by omega)]
    have haccepts : m.acceptsForwarded = false := by simp [acceptsForwarded, hrun, hon]
    refine completeFrameLen_of_lengths (by omega) ?_ ?_
    · simp only [expectedFrameLen, haccepts, Bool.false_eq_true, if_false, byteAt_of_getElem? hbyte,
        h.length]
    · simp only [configuredResponseFrameLen, haccepts, Bool.false_eq_true, if_false,
        configuredDirectLen, hrun, if_true, hdev, Option.map_some,
        configuredProtocolFrameLen_response h 0 hbyte]

end SerialManager

/-! ## Forwarded frames -/

/-- What a primary passes on to its standby: a header with the address of the device at `index`,
two zeros, and its response. -/
structure Forwarded where
  header : List UInt8
  frame : List UInt8
  index : Nat

def Forwarded.wire (f : Forwarded) : List UInt8 := f.header ++ [0, 0] ++ f.frame

structure Forwarded.Valid (m : SerialManager) (f : Forwarded) : Prop where
  header_length : f.header.length = forwardHeaderLen
  header_checksum : verifyChecksum f.header = true
  device : ∃ id dev, f.header.head? = some id ∧ m.deviceIndex id = some f.index ∧
    m.portConfig.devices[f.index]? = some dev ∧ ResponseOf dev f.frame

section Forwarding

variable {m : SerialManager} {f : Forwarded}

theorem Forwarded.Valid.wire_length (h : f.Valid m) :
    f.wire.length = forwardPrefixLen + f.frame.length := by
  simp only [Forwarded.wire, List.length_append, h.header_length, List.length_cons, List.length_nil,
    forwardHeaderLen, forwardPrefixLen]

theorem Forwarded.Valid.drop_wire (h : f.Valid m) : f.wire.drop forwardPrefixLen = f.frame := by
  have hlen : (f.header ++ [0, 0]).length = forwardPrefixLen := by
    simp [h.header_length, forwardHeaderLen, forwardPrefixLen]
  rw [Forwarded.wire, ← hlen, List.drop_left]

/-- The prefix is recognized as soon as it is there. -/
theorem Forwarded.Valid.dataStart (h : f.Valid m) {buf tail : List UInt8}
    (hpart : buf <+: f.wire ++ tail) (hlen : forwardPrefixLen ≤ buf.length) :
    validatedForwardDataStart buf = some forwardPrefixLen := by
  have hlen' : (f.header ++ [0, 0]).length = forwardPrefixLen := by
    simp [h.header_length, forwardHeaderLen, forwardPrefixLen]
  have htake : buf.take forwardPrefixLen = f.header ++ [0, 0] := by
    rw [List.prefix_iff_eq_take.mp hpart, List.take_take, Nat.min_eq_left hlen, Forwarded.wire,
      List.append_assoc, ← hlen', List.take_left]
  have hheader : buf.take forwardHeaderLen = f.header := by
    have hmin : Nat.min forwardHeaderLen forwardPrefixLen = forwardHeaderLen := rfl
    rw [← hmin, ← List.take_take, htake, ← h.header_length, List.take_left]
  have hzeros : (buf.take forwardPrefixLen).drop forwardHeaderLen = [0, 0] := by
    rw [htake, ← h.header_length, List.drop_left]
  unfold validatedForwardDataStart
  rw [if_neg]
  simp only [not_or, hzeros, hheader, h.header_checksum]
  exact ⟨by omega, by simp, by simp⟩

theorem Forwarded.Valid.head? (h : f.Valid m) {buf tail : List UInt8}
    (hpart : buf <+: f.wire ++ tail) (hlen : forwardPrefixLen ≤ buf.length) :
    buf.head? = f.header.head? := by
  have hheader := h.header_length
  have hpos : 0 < buf.length := lt_of_lt_of_le (by decide) hlen
  rw [List.head?_eq_getElem?, getElem?_of_part hpart hpos, List.head?_eq_getElem?, Forwarded.wire,
    List.append_assoc, List.append_assoc,
    List.getElem?_append_left (by rw [hheader]; decide)]

theorem Forwarded.Valid.find? (h : f.Valid m) : ∃ id dev, f.header.head? = some id ∧
    m.deviceIndex id = some f.index ∧
    (m.portConfig.devices.find? fun dev => dev.config.deviceId == id) = some dev ∧
    ResponseOf dev f.frame := by
  obtain ⟨id, dev, hid, hindex, hdev, hframe⟩ := h.device
  refine ⟨id, dev, hid, hindex, ?_, hframe⟩
  rw [SerialManager.deviceIndex] at hindex
  rw [List.find?_eq_bind_findIdx?_getElem?, hindex, Option.bind_some, hdev]

/-- A standby cuts exactly the forwarded frames of the devices it is configured with. -/
theorem Forwarded.Valid.delimited (h : f.Valid m) (hrun : m.currentRun = .secondary) :
    Delimited m.completeFrameLen f.wire := by
  refine Delimited.of_prefix fun buf tail hpart => ?_
  obtain ⟨id, dev, hid, -, hdev, hframe⟩ := h.find?
  have haccepts : m.acceptsForwarded = true := by simp [SerialManager.acceptsForwarded, hrun]
  have hwire := h.wire_length
  have hlength := hframe.length
  simp only [forwardPrefixLen] at hwire
  by_cases hprefix : buf.length < 9
  -- the third byte of the header is no length
  · have hnone : validatedForwardDataStart buf = none := by
      rw [validatedForwardDataStart, if_pos (.inl hprefix)]
    rw [if_neg (by omega)]
    by_cases hshort : buf.length < 3
    · exact SerialManager.completeFrameLen_short hshort
    · refine SerialManager.completeFrameLen_waiting ?_
      simp only [SerialManager.expectedFrameLen, haccepts, if_true, hnone]
      rw [if_pos (show buf.length < forwardPrefixLen from hprefix)]
      exact hprefix
  · have hstart := h.dataStart hpart (Nat.not_lt.mp hprefix)
    by_cases hdata : buf.length < 12
    · rw [if_neg (by omega)]
      refine SerialManager.completeFrameLen_waiting ?_
      simp only [SerialManager.expectedFrameLen, haccepts, if_true, hstart, forwardPrefixLen]
      rw [if_neg (by omega)]
      omega
    · have hbyte : buf[forwardPrefixLen + 2]? = f.frame[2]? := by
        rw [getElem?_of_part hpart (by simp only [forwardPrefixLen]; omega), ← h.drop_wire,
          List.getElem?_drop, List.getElem?_append_left]
        rw [h.wire_length]
        omega
      have hhead := h.head? hpart (Nat.not_lt.mp hprefix)
      refine SerialManager.completeFrameLen_of_lengths (by omega) ?_ ?_
      · simp only [SerialManager.expectedFrameLen, haccepts, if_true, hstart]
        rw [if_pos (by simp only [forwardPrefixLen]; omega), byteAt_of_getElem? hbyte, h.wire_length]
        omega
      · simp only [SerialManager.configuredResponseFrameLen, haccepts, if_true, hstart, hhead, hid,
          Option.bind_some, hdev, Option.map_some, configuredProtocolFrameLen_response hframe _ hbyte,
          h.wire_length]

theorem Forwarded.Valid.congr {m' : SerialManager} (h : f.Valid m)
    (hconfig : m'.portConfig = m.portConfig) : f.Valid m' := by
  obtain ⟨id, dev, hid, hindex, hdev, hframe⟩ := h.device
  refine ⟨h.header_length, h.header_checksum, id, dev, hid, ?_, ?_, hframe⟩
  · rw [SerialManager.deviceIndex, hconfig]
    exact hindex
  · rw [hconfig]
    exact hdev

theorem Forwarded.Valid.forwardedFrom (h : f.Valid m) (hrun : m.currentRun = .secondary) :
    m.forwardedFrom f.wire = some (forwardPrefixLen, f.index) := by
  obtain ⟨id, dev, hid, hindex, -, -⟩ := h.device
  have hlen : forwardPrefixLen ≤ f.wire.length := by
    rw [h.wire_length]
    omega
  have hwhole : f.wire <+: f.wire ++ [] := List.prefix_append _ _
  have haccepts : m.acceptsForwarded = true := by simp [SerialManager.acceptsForwarded, hrun]
  rw [SerialManager.forwardedFrom, if_pos haccepts, h.dataStart hwhole hlen, h.head? hwhole hlen, hid]
  simp only [Option.bind_some, hindex, Option.map_some]

theorem Forwarded.Valid.forwardedFrame (h : f.Valid m) :
    SerialManager.forwardedFrame f.wire forwardPrefixLen = f.frame := by
  obtain ⟨_, _, -, -, -, hframe⟩ := h.device
  have hlength := hframe.length
  simp only [SerialManager.forwardedFrame, h.drop_wire]
  rw [if_pos (by omega), ← hlength, List.take_length]

end Forwarding

/-! ## Attempts -/

/-- What an attempt has extracted, for the device at which index where this is known, and how the
attempt went. -/
structure Received where
  received : Option (List UInt8 × Option Nat)
  outcome : ReceiveDataOutcome
  deriving DecidableEq

namespace SerialManager

/-- Successive attempts; each goes on with what is pending and with the turns left. -/
def attempts (reopen : Reopen) : Nat → SerialManager → List Turn → List Received
  | 0, _, _ => []
  | n + 1, m, turns =>
    { received := (m.extracted turns).map fun x => (x.2.1, if x.2.2 then some x.1.index else none)
      outcome := (m.receiveDataAttempt turns reopen).2 } ::
      attempts reopen n (m.receiveDataAttempt turns reopen).1 (m.unread m.rxPending turns)

variable {m : SerialManager}

/-- Frames are smaller than the read buffer, so the loop never gives up on one for its size. -/
theorem delimited_cutLen {frame : List UInt8} (h : Delimited m.completeFrameLen frame)
    (hsize : frame.length ≤ readBufLen) : Delimited m.cutLen frame where
  early := by
    intro buf hpart hmore
    have hlt : buf.length < frame.length :=
      Nat.lt_of_le_of_ne hpart.length_le fun hlen => hmore (hpart.eq_of_length hlen)
    simp only [cutLen, h.early buf hpart hmore]
    rw [if_neg (by omega)]
  exact := by
    intro tail
    simp only [cutLen, h.exact tail]

theorem extracted_delimited (hmode : m.currentRun = .secondary ∨ m.runOn = .primary)
    {frame tail : List UInt8} {turns : List Turn} (hframe : Delimited m.completeFrameLen frame)
    (hsize : frame.length ≤ readBufLen) (hnonempty : frame ≠ [])
    (hturns : ∀ t ∈ turns, t.Delivers)
    (hsplit : m.rxPending ++ turns.flatMap Turn.bytes = frame ++ tail) :
    ∃ rest, m.extracted turns = some ((m.keepPending rest).extractFrame frame) ∧
      rest ++ (m.unread m.rxPending turns).flatMap Turn.bytes = tail ∧
      m.unread m.rxPending turns <:+ turns := by
  obtain ⟨rest, left, hgather, htail, hleft⟩ :=
    gather_delimited (delimited_cutLen hframe hsize) hsplit
  obtain ⟨⟨exit, hassemble⟩, hunread⟩ := assemble_gather hmode hturns hgather
  refine ⟨rest, ?_, hunread ▸ htail, hunread ▸ hleft⟩
  simp only [extracted, hassemble]
  rw [if_neg hnonempty]

/-- Handling a packet leaves the connection alone. -/
theorem handleValidPacket_connection (m : SerialManager) (packet : DataPacket) (frame : List UInt8) :
    (m.handleValidPacket packet frame).portOpen = m.portOpen ∧
      (m.handleValidPacket packet frame).rxPending = m.rxPending ∧
      (m.handleValidPacket packet frame).currentRun = m.currentRun ∧
      (m.handleValidPacket packet frame).portConfig = m.portConfig := by
  have hpublish : ∀ (m : SerialManager) index data status,
      (m.publish index data status).portOpen = m.portOpen ∧
        (m.publish index data status).rxPending = m.rxPending ∧
        (m.publish index data status).currentRun = m.currentRun ∧
        (m.publish index data status).portConfig = m.portConfig := by
    intro m index data status
    unfold publish
    dsimp only
    split <;> exact ⟨rfl, rfl, rfl, rfl⟩
  simp only [handleValidPacket]
  split_ifs
  · unfold sendZeroStatusForIndex
    split
    · exact ⟨rfl, rfl, rfl, rfl⟩
    · exact hpublish _ _ _ _
  · split
    · exact ⟨rfl, rfl, rfl, rfl⟩
    · exact hpublish _ _ _ _

/-- One forwarded frame: the attempt takes it and goes on from what follows. -/
theorem receiveDataAttempt_forwarded (hopen : m.portOpen = true) (hrun : m.currentRun = .secondary)
    {f : Forwarded} (h : f.Valid m) {turns : List Turn} {tail : List UInt8}
    (hturns : ∀ t ∈ turns, t.Delivers)
    (hsplit : m.rxPending ++ turns.flatMap Turn.bytes = f.wire ++ tail) (reopen : Reopen) :
    ((m.extracted turns).map fun x => (x.2.1, if x.2.2 then some x.1.index else none)) =
        some (f.frame, some f.index) ∧
      ∃ next, m.receiveDataAttempt turns reopen = (next, .success) ∧ next.portOpen = true ∧
        next.currentRun = .secondary ∧ next.portConfig = m.portConfig ∧
        next.rxPending ++ (m.unread m.rxPending turns).flatMap Turn.bytes = tail ∧
        m.unread m.rxPending turns <:+ turns := by
  obtain ⟨_, dev, -, -, -, hframe⟩ := h.device
  have hwire := h.wire_length
  have hlength := hframe.length
  have hbyte := byteAt_lt f.frame 2
  have hsize : f.wire.length ≤ readBufLen := by
    simp only [hwire, forwardPrefixLen, readBufLen]
    omega
  have hnonempty : f.wire ≠ [] := by
    intro hempty
    rw [hempty, List.length_nil, forwardPrefixLen] at hwire
    omega
  obtain ⟨rest, hextracted, htail, hleft⟩ :=
    extracted_delimited (.inl hrun) (h.delimited hrun) hsize hnonempty hturns hsplit
  have hfwd : (m.keepPending rest).forwardedFrom f.wire = some (forwardPrefixLen, f.index) :=
    h.forwardedFrom hrun
  rw [extractFrame_forwarded hfwd, h.forwardedFrame] at hextracted
  refine ⟨by rw [hextracted]; rfl, ?_⟩
  obtain ⟨packet, hpacket⟩ := parseDataPacket_response hframe
  obtain ⟨hopen', hpending, hrun', hconfig⟩ :=
    handleValidPacket_connection ((m.keepPending rest).heard f.index).beforeHandling packet f.frame
  have hbefore : ((m.keepPending rest).heard f.index).beforeHandling =
      ((m.keepPending rest).heard f.index).note .forwarded := by
    simp [beforeHandling]
  have hheard : ((m.keepPending rest).heard f.index).portOpen = m.portOpen ∧
      ((m.keepPending rest).heard f.index).rxPending = rest := by
    simp [heard, keepPending, note, hrun]
  refine ⟨_, by rw [receiveDataAttempt_extracted hopen hextracted, dispatch_ok hpacket], ?_, ?_, ?_,
    ?_, hleft⟩
  · rw [hopen', hbefore]
    exact hheard.1.trans hopen
  · rw [hrun', hbefore]
    exact heard_currentRun (m.keepPending rest) f.index
  · rw [hconfig, hbefore]
    exact heard_portConfig (m.keepPending rest) f.index
  · rw [hpending, hbefore]
    exact (congrArg (· ++ _) hheard.2).trans htail

theorem attempts_forwarded (reopen : Reopen) {frames : List Forwarded} {tail : List UInt8}
    {turns : List Turn} (hopen : m.portOpen = true) (hrun : m.currentRun = .secondary)
    (hframes : ∀ f ∈ frames, f.Valid m) (hturns : ∀ t ∈ turns, t.Delivers)
    (hsplit : m.rxPending ++ turns.flatMap Turn.bytes = frames.flatMap Forwarded.wire ++ tail) :
    attempts reopen frames.length m turns =
      frames.map fun f => ⟨some (f.frame, some f.index), .success⟩ := by
  induction frames generalizing m turns with
  | nil => rfl
  | cons f frames ih =>
    rw [List.flatMap_cons, List.append_assoc] at hsplit
    obtain ⟨hreceived, next, hattempt, hopen', hrun', hconfig, hrest, hleft⟩ :=
      receiveDataAttempt_forwarded hopen hrun (hframes f List.mem_cons_self) hturns hsplit reopen
    have hgoOn := ih hopen' hrun'
      (fun g hg => (hframes g (List.mem_cons_of_mem _ hg)).congr hconfig)
      (fun t ht => hturns t (hleft.subset ht)) hrest
    rw [List.length_cons, attempts, hreceived, hattempt, List.map_cons, hgoOn]

/-- An answer to a poll: the attempt takes it, reads on as long as a part of it is missing, and
forgets what follows. -/
theorem receiveDataAttempt_direct (hopen : m.portOpen = true) (hrun : m.currentRun = .primary)
    (hon : m.runOn = .primary) {dev : DeviceConfig}
    (hdev : m.portConfig.devices[m.index]? = some dev) {frame tail : List UInt8}
    (h : ResponseOf dev frame) {turns : List Turn} (hturns : ∀ t ∈ turns, t.Delivers)
    (hsplit : m.rxPending ++ turns.flatMap Turn.bytes = frame ++ tail) (reopen : Reopen) :
    (∃ packet, parseDataPacket frame = .ok packet ∧
      m.receiveDataAttempt turns reopen =
        ((m.keepPending []).handleValidPacket packet frame, .success)) ∧
    ∀ buf, buf <+: frame → buf ≠ frame → ∀ drained next, m.beforeRead buf drained next = next := by
  have hlength := h.length
  have hbyte := byteAt_lt frame 2
  have hsize : frame.length ≤ readBufLen := by
    rw [readBufLen]
    omega
  have hnonempty : frame ≠ [] := by
    intro hempty
    rw [hempty, List.length_nil] at hlength
    omega
  have hframe := delimited_direct hrun hon hdev h
  constructor
  · obtain ⟨packet, hpacket⟩ := parseDataPacket_response h
    obtain ⟨rest, hextracted, -, -⟩ :=
      extracted_delimited (.inr hon) hframe hsize hnonempty hturns hsplit
    have hfwd : (m.keepPending rest).forwardedFrom frame = none := by
      simp [forwardedFrom, acceptsForwarded, hrun, hon]
    rw [extractFrame_direct hfwd hrun] at hextracted
    refine ⟨packet, hpacket, ?_⟩
    rw [receiveDataAttempt_extracted hopen hextracted, dispatch_ok hpacket]
    simp [beforeHandling, keepPending, hrun]
  · intro buf hpart hmore drained next
    exact beforeRead_wait (.inr hon) ((delimited_cutLen hframe hsize).early buf hpart hmore) drained
      next

end SerialManager

/-- However the bytes are split into reads, a primary takes the answer of the device it has polled
whole and alone, and a standby takes the forwarded frames one by one. -/
theorem receiveDataAttempt_chunking (m : SerialManager) (reopen : Reopen) (turns : List Turn)
    (tail : List UInt8) (hopen : m.portOpen = true) (hturns : ∀ t ∈ turns, t.Delivers) :
    (m.currentRun = .primary → m.runOn = .primary →
      ∀ dev frame, m.portConfig.devices[m.index]? = some dev → ResponseOf dev frame →
        m.rxPending ++ turns.flatMap Turn.bytes = frame ++ tail →
        (∃ packet, parseDataPacket frame = .ok packet ∧
          m.receiveDataAttempt turns reopen =
            ((m.keepPending []).handleValidPacket packet frame, .success)) ∧
        ∀ buf, buf <+: frame → buf ≠ frame → ∀ drained next,
          m.beforeRead buf drained next = next) ∧
    (m.currentRun = .secondary →
      ∀ frames : List Forwarded, (∀ f ∈ frames, f.Valid m) →
        m.rxPending ++ turns.flatMap Turn.bytes = frames.flatMap Forwarded.wire ++ tail →
        SerialManager.attempts reopen frames.length m turns =
          frames.map fun f => ⟨some (f.frame, some f.index), .success⟩) := by
  constructor
  · intro hrun hon dev frame hdev h hsplit
    exact SerialManager.receiveDataAttempt_direct hopen hrun hon hdev h hturns hsplit reopen
  · intro hrun frames hframes hsplit
    exact SerialManager.attempts_forwarded reopen hopen hrun hframes hturns hsplit

/-- The second of two forwarded frames begins in the middle of a read. -/
theorem receiveDataAttempt_chunking_sample :
    SerialManager.attempts .cooling 2 (sampleManager .secondary .secondary)
        [⟨false, .data [1, 0, 0, 0, 0, 0, 1, 0, 0, 1]⟩, ⟨true, .data [3, 2, 0, 7, 0, 13, 1, 0, 0]⟩,
          ⟨false, .data [0, 0, 0, 1, 0, 0, 1, 3, 2, 0, 8, 0, 14]⟩] =
      [⟨some ([1, 3, 2, 0, 7, 0, 13], some 0), .success⟩,
        ⟨some ([1, 3, 2, 0, 8, 0, 14], some 0), .success⟩] := by
  have hvalid : ∀ f ∈ ([⟨[1, 0, 0, 0, 0, 0, 1], [1, 3, 2, 0, 7, 0, 13], 0⟩,
      ⟨[1, 0, 0, 0, 0, 0, 1], [1, 3, 2, 0, 8, 0, 14], 0⟩] : List Forwarded),
      f.Valid (sampleManager .secondary .secondary) := by
    simp only [List.forall_mem_cons, List.not_mem_nil, false_imp_iff, implies_true, and_true]
    exact ⟨⟨rfl, rfl, 1, sampleDevice, rfl, rfl, rfl, rfl, rfl, .inl rfl⟩,
      ⟨rfl, rfl, 1, sampleDevice, rfl, rfl, rfl, rfl, rfl, .inl rfl⟩⟩
  refine (receiveDataAttempt_chunking _ .cooling _ [] rfl ?_).2 rfl _ hvalid rfl
  simp [Turn.Delivers]

end RcdServer.Serial
