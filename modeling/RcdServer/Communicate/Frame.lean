import RcdServer.Lib.Run
import RcdServer.Lib.Scanner

/-!
# Frames

`frame.rs`: three little-endian lengths, the stored payload and a checksum. `FrameDecoder` finds
frames in a stream that arrives in chunks; a plausible header holds it up until the frame is
complete, or until the deadline has passed and `recoverExpired` searches what has arrived.
-/
namespace RcdServer.Communicate

open Lib Lib.Run Lib.Scanner

structure Limits where
  frame : Nat
  payload : Nat
  deriving DecidableEq

inductive FrameError where
  | length
  | checksum
  | compression (message : String)
  | decompression (message : String)
  | payloadLength
  | bufferLimit
  deriving DecidableEq

def Limits.validate (l : Limits) : Except FrameError Unit :=
  if ¬ (10 ≤ l.frame ∧ l.frame ≤ 65535) ∨ ¬ (1 ≤ l.payload ∧ l.payload ≤ 65535) then .error .length
  else .ok ()

/-- What one call of `Decompress::decompress` has done. -/
structure Decompressed where
  streamEnd : Bool
  totalIn : Nat
  totalOut : Nat
  output : List UInt8

/-- The packages behind the envelope: `crc32fast::hash`, and `decompress` into a buffer of the given
length. -/
structure Codec where
  crc32 : List UInt8 → UInt32
  decompress : List UInt8 → Nat → Except String Decompressed

/-- Within the bytes. -/
def u16At (bytes : List UInt8) (offset : Nat) : Nat :=
  (bytes.getD offset 0).toNat + 256 * (bytes.getD (offset + 1) 0).toNat

def u32At (bytes : List UInt8) (offset : Nat) : Nat :=
  u16At bytes offset + 65536 * u16At bytes (offset + 2)

def validHeader (bytes : List UInt8) (limits : Limits) : Bool :=
  let total := u16At bytes 0
  let plain := u16At bytes 2
  let compressed := u16At bytes 4
  decide (10 ≤ total ∧ total ≤ limits.frame) && decide (plain ≤ limits.payload) &&
    compressed + 10 == total

def decode (codec : Codec) (limits : Limits) (frame : List UInt8) :
    Except FrameError (List UInt8) :=
  match limits.validate with
  | .error e => .error e
  | .ok () =>
    if frame.length < 10 || !validHeader frame limits || u16At frame 0 != frame.length then
      .error .length
    else
      let last := frame.length - 4
      let body := (frame.take last).drop 6
      if (codec.crc32 (frame.take last)).toNat ≠ u32At frame last then .error .checksum
      else
        let declared := u16At frame 2
        -- Equal lengths mean that the payload is stored as it is.
        if declared = last - 6 then .ok body
        else
          match codec.decompress body (declared + 1) with
          | .error message => .error (.decompression message)
          | .ok out =>
            if !out.streamEnd || out.totalOut != declared || out.totalIn != last - 6 then
              .error .payloadLength
            else .ok (out.output.take declared)

/-! ## The decoder -/

structure FeedResult where
  payloads : List (List UInt8) := []
  rejectedFrames : Nat := 0
  discardedBytes : Nat := 0
  deriving DecidableEq

structure FrameDecoder where
  limits : Limits
  buffer : List UInt8
  deriving DecidableEq

/-- The body of the loop in `feed`. -/
def feedLook (codec : Codec) (limits : Limits) (tail : List UInt8) : Look (List UInt8) :=
  if tail.length < 6 then .wait
  else if !validHeader tail limits then .drop false
  else if tail.length < u16At tail 0 then .wait
  else
    match decode codec limits (tail.take (u16At tail 0)) with
    | .ok payload => .take (u16At tail 0) payload
    | .error _ => .drop true

/-- The body of the loop in `recover_expired`. -/
def recoverLook (codec : Codec) (limits : Limits) (tail : List UInt8) : Look (List UInt8) :=
  if tail.length < 10 then .wait
  else if validHeader tail limits && decide (u16At tail 0 ≤ tail.length) then
    match decode codec limits (tail.take (u16At tail 0)) with
    | .ok payload => .take (u16At tail 0) payload
    | .error _ => .drop true
  else .drop false

namespace FrameDecoder

def new (limits : Limits) : Except FrameError FrameDecoder :=
  match limits.validate with
  | .error e => .error e
  | .ok () => .ok ⟨limits, []⟩

def reset (d : FrameDecoder) : FrameDecoder := { d with buffer := [] }

def hasPartialFrame (d : FrameDecoder) : Bool := !d.buffer.isEmpty

def recoverExpired (codec : Codec) (d : FrameDecoder) : FeedResult × FrameDecoder :=
  let out := Scanner.run (recoverLook codec d.limits) d.buffer
  (⟨out.outs, out.rejected, out.dropped + out.rest.length⟩, d.reset)

def feed (codec : Codec) (d : FrameDecoder) (chunk : List UInt8) :
    Except FrameError FeedResult × FrameDecoder :=
  if chunk.length > d.limits.frame ∨ d.buffer.length + chunk.length > d.limits.frame * 2 then
    (.error .bufferLimit, d.reset)
  else
    let out := Scanner.run (feedLook codec d.limits) (d.buffer ++ chunk)
    (.ok ⟨out.outs, out.rejected, out.dropped⟩, { d with buffer := out.rest })

end FrameDecoder

/-! ## Decisions -/

section Decisions

variable {codec : Codec} {limits : Limits}

theorem validHeader_iff {bytes : List UInt8} :
    validHeader bytes limits = true ↔
      (10 ≤ u16At bytes 0 ∧ u16At bytes 0 ≤ limits.frame) ∧ u16At bytes 2 ≤ limits.payload ∧
        u16At bytes 4 + 10 = u16At bytes 0 := by
  simp [validHeader, and_assoc]

theorem u16At_append {bytes more : List UInt8} {offset : Nat} (h : offset + 2 ≤ bytes.length) :
    u16At (bytes ++ more) offset = u16At bytes offset := by
  have hget : ∀ i, i < bytes.length → (bytes ++ more).getD i 0 = bytes.getD i 0 := by
    intro i hi
    rw [List.getD_eq_getElem?_getD, List.getD_eq_getElem?_getD, List.getElem?_append_left hi]
  rw [u16At, hget offset (by omega), hget (offset + 1) (by omega), u16At]

theorem validHeader_append {bytes more : List UInt8} (h : 6 ≤ bytes.length) :
    validHeader (bytes ++ more) limits = validHeader bytes limits := by
  unfold validHeader
  rw [u16At_append (by omega), u16At_append (by omega), u16At_append (by omega)]

theorem lawful_feedLook : Lawful (feedLook codec limits) where
  nil := rfl
  take := by
    intro buffer size out h
    unfold feedLook at h
    split at h
    · cases h
    split at h
    · cases h
    rename_i hheader
    split at h
    · cases h
    rename_i hlen
    split at h
    · cases h
      have hheader := (@validHeader_iff limits buffer).mp (by simpa using hheader)
      exact ⟨by omega, by omega⟩
    · cases h

theorem lawful_recoverLook : Lawful (recoverLook codec limits) where
  nil := rfl
  take := by
    intro buffer size out h
    unfold recoverLook at h
    split at h
    · cases h
    split at h
    · rename_i hheader
      simp only [Bool.and_eq_true, decide_eq_true_eq, validHeader_iff] at hheader
      split at h
      · cases h
        exact ⟨by omega, by omega⟩
      · cases h
    · cases h

theorem stable_feedLook : Stable (feedLook codec limits) := by
  intro buffer more h
  unfold feedLook at h ⊢
  split at h
  · exact absurd rfl h
  rename_i hlen
  have hheader : validHeader (buffer ++ more) limits = validHeader buffer limits :=
    validHeader_append (by omega)
  have htotal : u16At (buffer ++ more) 0 = u16At buffer 0 := u16At_append (by omega)
  rw [if_neg hlen, if_neg (by rw [List.length_append]; omega), hheader, htotal]
  split at h
  · rename_i hinvalid
    rw [if_pos hinvalid, if_pos hinvalid]
  rename_i hvalid
  rw [if_neg hvalid, if_neg hvalid]
  split at h
  · exact absurd rfl h
  rename_i hcomplete
  rw [if_neg hcomplete, if_neg (by rw [List.length_append]; omega),
    List.take_append_of_le_length (by omega)]

/-- A payload is returned for a frame that `decode` accepts. -/
def Accepted (codec : Codec) (limits : Limits) (frame payload : List UInt8) : Prop :=
  decode codec limits frame = .ok payload

theorem feedLook_accepted {buffer out : List UInt8} {size : Nat}
    (h : feedLook codec limits buffer = .take size out) :
    Accepted codec limits (buffer.take size) out := by
  unfold feedLook at h
  split at h
  · cases h
  split at h
  · cases h
  split at h
  · cases h
  cases hd : decode codec limits (buffer.take (u16At buffer 0)) with
  | error e => simp [hd] at h
  | ok payload =>
    simp only [hd] at h
    cases h
    exact hd

theorem recoverLook_accepted {buffer out : List UInt8} {size : Nat}
    (h : recoverLook codec limits buffer = .take size out) :
    Accepted codec limits (buffer.take size) out := by
  unfold recoverLook at h
  split at h
  · cases h
  split at h
  · cases hd : decode codec limits (buffer.take (u16At buffer 0)) with
    | error e => simp [hd] at h
    | ok payload =>
      simp only [hd] at h
      cases h
      exact hd
  · cases h

/-- The decoder waits only for a frame within the limits. -/
theorem length_lt_of_wait (hlimits : limits.validate = .ok ()) {buffer : List UInt8}
    (h : feedLook codec limits buffer = .wait) : buffer.length < limits.frame := by
  have hframe : 10 ≤ limits.frame := by
    by_contra hsmall
    simp [Limits.validate, hsmall] at hlimits
  unfold feedLook at h
  split at h
  · omega
  split at h
  · cases h
  rename_i hheader
  have hheader := (@validHeader_iff limits buffer).mp (by simpa using hheader)
  split at h
  · omega
  · split at h <;> cases h

end Decisions

/-! ## Decoders in use -/

def FeedResult.add (r r' : FeedResult) : FeedResult :=
  ⟨r.payloads ++ r'.payloads, r.rejectedFrames + r'.rejectedFrames,
    r.discardedBytes + r'.discardedBytes⟩

inductive DecoderCall where
  | feed (chunk : List UInt8)
  | recoverExpired
  | reset
  deriving DecidableEq

namespace FrameDecoder

/-- The chunks one after the other, with the totals of what they yield. -/
def feedAll (codec : Codec) (d : FrameDecoder) :
    List (List UInt8) → Except FrameError FeedResult × FrameDecoder
  | [] => (.ok {}, d)
  | chunk :: chunks =>
    match d.feed codec chunk with
    | (.error e, d) => (.error e, d)
    | (.ok r, d) =>
      match d.feedAll codec chunks with
      | (.error e, d) => (.error e, d)
      | (.ok r', d) => (.ok (r.add r'), d)

def call (codec : Codec) (d : FrameDecoder) : DecoderCall → FrameDecoder
  | .feed chunk => (d.feed codec chunk).2
  | .recoverExpired => (d.recoverExpired codec).2
  | .reset => d.reset

def after (codec : Codec) (d : FrameDecoder) (calls : List DecoderCall) : FrameDecoder :=
  calls.foldl (call codec) d

end FrameDecoder

section Laws

variable {codec : Codec} {limits : Limits} {d : FrameDecoder}

theorem new_eq_ok (h : FrameDecoder.new limits = .ok d) :
    limits.validate = .ok () ∧ d = ⟨limits, []⟩ := by
  unfold FrameDecoder.new at h
  cases hv : limits.validate with
  | error e => simp [hv] at h
  | ok u =>
    simp only [hv, Except.ok.injEq] at h
    exact ⟨rfl, h.symm⟩

/-- The buffer holds nothing that could be decided. -/
structure Settled (codec : Codec) (limits : Limits) (d : FrameDecoder) : Prop where
  within : d.limits = limits
  waits : feedLook codec limits d.buffer = .wait

theorem settled_reset (h : d.limits = limits) : Settled codec limits d.reset := ⟨h, rfl⟩

theorem feed_error (h : Settled codec limits d) (hlimits : limits.validate = .ok ())
    {chunk : List UInt8} {e : FrameError} (he : (d.feed codec chunk).1 = .error e) :
    limits.frame < chunk.length ∧ e = .bufferLimit := by
  have hbuffer := length_lt_of_wait hlimits h.waits
  unfold FrameDecoder.feed at he
  split at he
  · rename_i hlong
    cases he
    rw [h.within] at hlong
    exact ⟨by omega, rfl⟩
  · cases he

theorem feed_ok (h : Settled codec limits d) (hlimits : limits.validate = .ok ())
    {chunk : List UInt8} (hchunk : chunk.length ≤ limits.frame) :
    d.feed codec chunk =
      (.ok ⟨(Scanner.run (feedLook codec limits) (d.buffer ++ chunk)).outs,
        (Scanner.run (feedLook codec limits) (d.buffer ++ chunk)).rejected,
        (Scanner.run (feedLook codec limits) (d.buffer ++ chunk)).dropped⟩,
      ⟨limits, (Scanner.run (feedLook codec limits) (d.buffer ++ chunk)).rest⟩) := by
  have hbuffer := length_lt_of_wait hlimits h.waits
  unfold FrameDecoder.feed
  rw [h.within, if_neg (by omega)]

theorem settled_feed (h : Settled codec limits d) (chunk : List UInt8) :
    Settled codec limits (d.feed codec chunk).2 := by
  unfold FrameDecoder.feed
  split
  · exact settled_reset h.within
  · refine ⟨h.within, ?_⟩
    rw [h.within]
    exact look_rest lawful_feedLook _

theorem settled_after (h : Settled codec limits d) (calls : List DecoderCall) :
    Settled codec limits (d.after codec calls) := by
  induction calls generalizing d with
  | nil => exact h
  | cons c calls ih =>
    refine ih ?_
    cases c with
    | feed chunk => exact settled_feed h chunk
    | recoverExpired => exact settled_reset h.within
    | reset => exact settled_reset h.within

/-- Chunks within the limit are scanned like the stream they divide. -/
theorem feedAll_eq (h : Settled codec limits d) (hlimits : limits.validate = .ok ())
    {chunks : List (List UInt8)} (hchunks : ∀ chunk ∈ chunks, chunk.length ≤ limits.frame) :
    d.feedAll codec chunks =
      (.ok ⟨(Scanner.run (feedLook codec limits) (d.buffer ++ chunks.flatten)).outs,
        (Scanner.run (feedLook codec limits) (d.buffer ++ chunks.flatten)).rejected,
        (Scanner.run (feedLook codec limits) (d.buffer ++ chunks.flatten)).dropped⟩,
      ⟨limits, (Scanner.run (feedLook codec limits) (d.buffer ++ chunks.flatten)).rest⟩) := by
  rw [← feeds_eq lawful_feedLook stable_feedLook h.waits]
  induction chunks generalizing d with
  | nil =>
    obtain ⟨rfl, -⟩ := h
    rfl
  | cons chunk chunks ih =>
    have hfirst := feed_ok h hlimits (hchunks chunk List.mem_cons_self)
    have hsettled := settled_feed h chunk
    rw [hfirst] at hsettled
    have hrest := ih hsettled fun c hc => hchunks c (List.mem_cons_of_mem _ hc)
    simp only [FrameDecoder.feedAll, hfirst, hrest]
    rfl

theorem feed_accepted {d' : FrameDecoder} {chunk : List UInt8} {r : FeedResult}
    (h : d.feed codec chunk = (.ok r, d')) :
    ∃ frames, List.Forall₂ (Accepted codec d.limits) frames r.payloads := by
  unfold FrameDecoder.feed at h
  split at h
  · cases h
  · cases h
    obtain ⟨stream, -, hframes, -⟩ := run_divides (@lawful_feedLook codec d.limits)
      (fun _ _ _ => feedLook_accepted) (d.buffer ++ chunk)
    exact ⟨stream.blocks, hframes⟩

/-- What is left behind the last frame is discarded too. -/
theorem recoverExpired_divides (codec : Codec) (d : FrameDecoder) :
    ∃ stream : Division UInt8, d.buffer = stream.stream ∧
      List.Forall₂ (Accepted codec d.limits) stream.blocks (d.recoverExpired codec).1.payloads ∧
      (d.recoverExpired codec).1.discardedBytes = stream.dropped := by
  obtain ⟨⟨parts, noise⟩, hstream, hframes, hdropped⟩ := run_divides
    (@lawful_recoverLook codec d.limits) (fun _ _ _ => recoverLook_accepted) d.buffer
  refine ⟨⟨parts, noise ++ (Scanner.run (recoverLook codec d.limits) d.buffer).rest⟩, ?_, hframes, ?_⟩
  · simpa [Division.stream] using hstream
  · simp only [FrameDecoder.recoverExpired, hdropped, Division.dropped, List.length_append]
    omega

/-- What a decoder promises for every stream, every division of it and every sequence of calls. -/
structure DecodingLaws (codec : Codec) (limits : Limits) (d : FrameDecoder) : Prop where
  independent : ∀ chunks chunks' : List (List UInt8),
    (∀ chunk ∈ chunks, chunk.length ≤ limits.frame) →
    (∀ chunk ∈ chunks', chunk.length ≤ limits.frame) → chunks.flatten = chunks'.flatten →
    ∃ r d', d.feedAll codec chunks = (.ok r, d') ∧ d.feedAll codec chunks' = (.ok r, d')
  bounded : ∀ calls, (d.after codec calls).buffer.length < limits.frame ∧
    ∀ chunk e, ((d.after codec calls).feed codec chunk).1 = .error e →
      limits.frame < chunk.length ∧ e = .bufferLimit
  lossless : ∀ chunks : List (List UInt8), (∀ chunk ∈ chunks, chunk.length ≤ limits.frame) →
    ∃ r d', ∃ stream : Division UInt8, d.feedAll codec chunks = (.ok r, d') ∧
      chunks.flatten = stream.stream ++ d'.buffer ∧
      List.Forall₂ (Accepted codec limits) stream.blocks r.payloads ∧
      r.discardedBytes = stream.dropped ∧
      chunks.flatten.length =
        (stream.blocks.map List.length).sum + r.discardedBytes + d'.buffer.length
  recovers : ∀ calls, ((d.after codec calls).recoverExpired codec).2.buffer = [] ∧
    ∃ stream : Division UInt8, (d.after codec calls).buffer = stream.stream ∧
      List.Forall₂ (Accepted codec limits) stream.blocks
        ((d.after codec calls).recoverExpired codec).1.payloads ∧
      ((d.after codec calls).recoverExpired codec).1.discardedBytes = stream.dropped

theorem decoder_laws (codec : Codec) (h : FrameDecoder.new limits = .ok d) :
    DecodingLaws codec limits d := by
  obtain ⟨hlimits, rfl⟩ := new_eq_ok h
  have hnew : Settled codec limits ⟨limits, []⟩ := ⟨rfl, rfl⟩
  constructor
  · intro chunks chunks' hchunks hchunks' heq
    have hall := feedAll_eq hnew hlimits hchunks
    rw [heq] at hall
    exact ⟨_, _, hall, feedAll_eq hnew hlimits hchunks'⟩
  · intro calls
    have hsettled := settled_after hnew calls
    exact ⟨length_lt_of_wait hlimits hsettled.waits, fun chunk e he => feed_error hsettled hlimits he⟩
  · intro chunks hchunks
    obtain ⟨stream, hstream, hframes, hdropped⟩ := run_divides (@lawful_feedLook codec limits)
      (fun _ _ _ => feedLook_accepted) chunks.flatten
    refine ⟨_, _, stream, feedAll_eq hnew hlimits hchunks, hstream, hframes, hdropped, ?_⟩
    have hlen := congrArg List.length hstream
    rw [List.length_append, stream.length_stream, ← hdropped] at hlen
    exact hlen
  · intro calls
    refine ⟨rfl, ?_⟩
    have hsettled := settled_after hnew calls
    obtain ⟨stream, hstream, hframes, hdropped⟩ := recoverExpired_divides codec
      (FrameDecoder.after codec ⟨limits, []⟩ calls)
    rw [hsettled.within] at hframes
    exact ⟨stream, hstream, hframes, hdropped⟩

end Laws

namespace Sample

def crc32Bit (crc : UInt32) : UInt32 :=
  if crc % 2 = 1 then (crc >>> 1) ^^^ 0xEDB88320 else crc >>> 1

def crc32 (bytes : List UInt8) : UInt32 :=
  bytes.foldl (fun crc b => Nat.iterate crc32Bit 8 (crc ^^^ b.toUInt32)) 0xFFFFFFFF ^^^ 0xFFFFFFFF

/-- Payloads are stored as they are. -/
def codec : Codec := ⟨crc32, fun _ _ => .error "corrupt deflate stream"⟩

example : crc32 [49, 50, 51, 52, 53, 54, 55, 56, 57] = 0xcbf43926 := by decide +kernel

/-- Noise, a frame with the payload "hi", and the header of another frame. -/
def stream : List UInt8 :=
  [0xff, 0xff, 12, 0, 2, 0, 2, 0, 0x68, 0x69, 245, 155, 6, 76, 12, 0, 2, 0, 2, 0]

def limits : Limits := ⟨256, 512⟩

def decoder : FrameDecoder := ⟨limits, []⟩

end Sample

/-- The bytes one by one, and all at once. -/
theorem decoder_laws_sample :
    (∃ r d', Sample.decoder.feedAll Sample.codec (Sample.stream.map ([·])) = (.ok r, d') ∧
      Sample.decoder.feedAll Sample.codec [Sample.stream] = (.ok r, d')) ∧
    Sample.decoder.feedAll Sample.codec [Sample.stream] =
      (.ok ⟨[[0x68, 0x69]], 0, 2⟩, ⟨Sample.limits, [12, 0, 2, 0, 2, 0]⟩) :=
  ⟨(@decoder_laws Sample.limits Sample.decoder Sample.codec rfl).independent (Sample.stream.map ([·]))
      [Sample.stream] (by decide) (by decide) (by decide), by decide +kernel⟩

end RcdServer.Communicate
