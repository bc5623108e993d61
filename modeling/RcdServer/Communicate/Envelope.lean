import RcdServer.Communicate.Frame
import RcdServer.Communicate.UnitReport

/-!
# Envelopes

`encode` of `frame.rs`. A payload is stored as it is when the compressed stream would not be
shorter, so equal stored and plain lengths tell the two kinds of frames apart: `decode` gives back
the payload of every frame that `encode` makes.
-/
namespace RcdServer.Communicate

/-- `u32::to_le_bytes`. -/
def toLeBytes32 (n : UInt32) : List UInt8 :=
  [n.toUInt8, (n >>> 8).toUInt8, (n >>> 16).toUInt8, (n >>> 24).toUInt8]

/-- `ZlibEncoder` over a `Vec`. -/
abbrev Compress := List UInt8 → Except String (List UInt8)

/-- The bytes that the checksum covers. -/
def covered (payload stored : List UInt8) : List UInt8 :=
  toLeBytes (stored.length + 10).toUInt16 ++ toLeBytes payload.length.toUInt16 ++
    toLeBytes stored.length.toUInt16 ++ stored

def encode (compress : Compress) (codec : Codec) (limits : Limits) (payload : List UInt8) :
    Except FrameError (List UInt8) :=
  match limits.validate with
  | .error e => .error e
  | .ok () =>
    if payload.length > limits.payload then .error .length
    else
      match compress payload with
      | .error message => .error (.compression message)
      | .ok compressed =>
        let stored := if compressed.length ≥ payload.length then payload else compressed
        if stored.length + 10 > limits.frame then .error .length
        else
          let frame := covered payload stored
          .ok (frame ++ toLeBytes32 (codec.crc32 frame))

/-- What the two packages promise for payloads within the length fields. -/
structure Zlib (compress : Compress) (codec : Codec) : Prop where
  compresses : ∀ payload, payload.length < 65536 → ∃ stream, compress payload = .ok stream
  inverts : ∀ payload stream room, payload.length < 65536 → compress payload = .ok stream →
    payload.length < room → ∃ out, codec.decompress stream room = .ok out ∧
      out.streamEnd = true ∧ out.totalIn = stream.length ∧ out.output = payload
  sizes : ∀ stream room out, codec.decompress stream room = .ok out →
    out.totalOut = out.output.length

/-! ## Fields of a frame -/

section Fields

variable {bytes rest : List UInt8}

theorem u16At_append_left (bytes rest : List UInt8) (offset : Nat) :
    u16At (bytes ++ rest) (bytes.length + offset) = u16At rest offset := by
  have hget : ∀ i, (bytes ++ rest).getD (bytes.length + i) 0 = rest.getD i 0 := by
    intro i
    rw [List.getD_eq_getElem?_getD, List.getD_eq_getElem?_getD,
      List.getElem?_append_right (Nat.le_add_right _ _), Nat.add_sub_cancel_left]
  rw [u16At, hget, Nat.add_assoc, hget, u16At]

theorem u16At_toLeBytes (n : UInt16) (rest : List UInt8) :
    u16At (toLeBytes n ++ rest) 0 = n.toNat := by
  have hlow : n.toUInt8.toNat = n.toNat % 256 := UInt16.toNat_toUInt8 n
  have hhigh : (n >>> 8).toUInt8.toNat = n.toNat / 256 % 256 := by
    rw [UInt16.toNat_toUInt8, UInt16.toNat_shiftRight, Nat.shiftRight_eq_div_pow]
    rfl
  have hn : n.toNat < 65536 := n.toNat_lt
  change n.toUInt8.toNat + 256 * (n >>> 8).toUInt8.toNat = n.toNat
  omega

theorem u32At_toLeBytes32 (n : UInt32) : u32At (toLeBytes32 n) 0 = n.toNat := by
  have hbyte : ∀ k : UInt32, (n >>> k).toUInt8.toNat = n.toNat / 2 ^ (k.toNat % 32) % 256 := by
    intro k
    rw [UInt32.toNat_toUInt8, UInt32.toNat_shiftRight, Nat.shiftRight_eq_div_pow]
  have h0 : n.toUInt8.toNat = n.toNat % 256 := UInt32.toNat_toUInt8 n
  have h8 : (n >>> 8).toUInt8.toNat = n.toNat / 256 % 256 := hbyte 8
  have h16 : (n >>> 16).toUInt8.toNat = n.toNat / 65536 % 256 := hbyte 16
  have h24 : (n >>> 24).toUInt8.toNat = n.toNat / 16777216 % 256 := hbyte 24
  have hn : n.toNat < 4294967296 := n.toNat_lt
  change n.toUInt8.toNat + 256 * (n >>> 8).toUInt8.toNat +
    65536 * ((n >>> 16).toUInt8.toNat + 256 * (n >>> 24).toUInt8.toNat) = n.toNat
  omega

theorem toNat_length (h : bytes.length < 65536) : bytes.length.toUInt16.toNat = bytes.length := by
  simpa using Nat.mod_eq_of_lt h

end Fields

section Covered

variable {payload stored checksum : List UInt8}

theorem length_covered (payload stored : List UInt8) :
    (covered payload stored).length = stored.length + 6 := by
  simp [covered, toLeBytes]

theorem drop_covered (payload stored : List UInt8) : (covered payload stored).drop 6 = stored := rfl

theorem total_covered (h : stored.length + 10 < 65536) :
    u16At (covered payload stored ++ checksum) 0 = stored.length + 10 := by
  have htotal : (stored.length + 10).toUInt16.toNat = stored.length + 10 := by
    simpa using Nat.mod_eq_of_lt h
  simp only [covered, List.append_assoc]
  rw [u16At_toLeBytes, htotal]

theorem plain_covered (h : payload.length < 65536) :
    u16At (covered payload stored ++ checksum) 2 = payload.length := by
  simp only [covered, List.append_assoc]
  exact (u16At_append_left (toLeBytes _) _ 0).trans ((u16At_toLeBytes _ _).trans (toNat_length h))

theorem stored_covered (h : stored.length < 65536) :
    u16At (covered payload stored ++ checksum) 4 = stored.length := by
  simp only [covered, List.append_assoc]
  refine (u16At_append_left (toLeBytes _) _ 2).trans ?_
  exact (u16At_append_left (toLeBytes _) _ 0).trans ((u16At_toLeBytes _ _).trans (toNat_length h))

end Covered

/-! ## The round trip -/

section RoundTrip

variable {compress : Compress} {codec : Codec} {limits : Limits} {payload frame : List UInt8}

theorem Limits.validate_eq_ok :
    limits.validate = .ok () ↔ (10 ≤ limits.frame ∧ limits.frame ≤ 65535) ∧
      1 ≤ limits.payload ∧ limits.payload ≤ 65535 := by
  unfold Limits.validate
  split_ifs with h
  · simp only [false_iff]
    omega
  · simp only [true_iff]
    omega

theorem encode_eq_ok (h : encode compress codec limits payload = .ok frame) :
    limits.validate = .ok () ∧ payload.length ≤ limits.payload ∧
      ∃ compressed stored, compress payload = .ok compressed ∧
        (payload.length ≤ compressed.length ∧ stored = payload ∨
          compressed.length < payload.length ∧ stored = compressed) ∧
        stored.length + 10 ≤ limits.frame ∧
        frame = covered payload stored ++ toLeBytes32 (codec.crc32 (covered payload stored)) := by
  unfold encode at h
  cases hv : limits.validate with
  | error e => simp [hv] at h
  | ok u =>
    simp only [hv] at h
    split at h
    · cases h
    rename_i hpayload
    cases hc : compress payload with
    | error e => simp [hc] at h
    | ok compressed =>
      simp only [hc] at h
      generalize hstored : (if compressed.length ≥ payload.length then payload else compressed) =
        stored at h
      split at h
      · cases h
      rename_i hframe
      cases h
      refine ⟨rfl, by omega, compressed, stored, rfl, ?_, by omega, rfl⟩
      split_ifs at hstored with hraw
      · exact .inl ⟨hraw, hstored.symm⟩
      · exact .inr ⟨by omega, hstored.symm⟩

/-- A frame whose fields agree with its bytes is read by its lengths alone. -/
theorem decode_covered {stored : List UInt8} (hlimits : limits.validate = .ok ())
    (hpayload : payload.length ≤ limits.payload) (hstored : stored.length + 10 ≤ limits.frame) :
    decode codec limits
        (covered payload stored ++ toLeBytes32 (codec.crc32 (covered payload stored))) =
      if payload.length = stored.length then .ok stored
      else
        match codec.decompress stored (payload.length + 1) with
        | .error message => .error (.decompression message)
        | .ok out =>
          if !out.streamEnd || out.totalOut != payload.length || out.totalIn != stored.length then
            .error .payloadLength
          else .ok (out.output.take payload.length) := by
  obtain ⟨⟨_, hframe⟩, _, hplain⟩ := Limits.validate_eq_ok.mp hlimits
  generalize hchecksum : toLeBytes32 (codec.crc32 (covered payload stored)) = checksum
  have hfour : checksum.length = 4 := by
    rw [← hchecksum]
    rfl
  have hcovered := length_covered payload stored
  have hlength : (covered payload stored ++ checksum).length = stored.length + 10 := by
    rw [List.length_append, hcovered, hfour]
  have hlast : stored.length + 10 - 4 = (covered payload stored).length := by omega
  have htotal : u16At (covered payload stored ++ checksum) 0 = stored.length + 10 :=
    total_covered (by omega)
  have hdeclared : u16At (covered payload stored ++ checksum) 2 = payload.length :=
    plain_covered (by omega)
  have hheader : validHeader (covered payload stored ++ checksum) limits = true := by
    rw [validHeader_iff, htotal, hdeclared, stored_covered (by omega)]
    omega
  have hcrc : u32At (covered payload stored ++ checksum) (covered payload stored).length =
      (codec.crc32 (covered payload stored)).toNat := by
    rw [← u32At_toLeBytes32, hchecksum]
    exact congrArg₂ (· + 65536 * ·) (u16At_append_left _ _ 0) (u16At_append_left _ _ 2)
  have hbody : (covered payload stored).length - 6 = stored.length := by omega
  unfold decode
  simp only [hlimits, hdeclared, htotal, hlength, hheader]
  rw [hlast, List.take_left, hcrc, drop_covered, hbody, if_neg (by simp)]
  exact if_neg (by simp)

/-- Equal lengths are kept for payloads stored as they are, so nothing is read the wrong way. -/
theorem decode_encode (hzlib : Zlib compress codec)
    (h : encode compress codec limits payload = .ok frame) : decode codec limits frame = .ok payload := by
  obtain ⟨hlimits, hpayload, compressed, stored, hcompress, hstored, hframe, rfl⟩ := encode_eq_ok h
  obtain ⟨-, -, hplain⟩ := Limits.validate_eq_ok.mp hlimits
  rw [decode_covered hlimits hpayload hframe]
  rcases hstored with ⟨-, rfl⟩ | ⟨hshorter, rfl⟩
  · rw [if_pos rfl]
  · obtain ⟨out, hout, hend, hin, houtput⟩ :=
      hzlib.inverts payload stored (payload.length + 1) (by omega) hcompress (by omega)
    have hsize := hzlib.sizes _ _ _ hout
    rw [if_neg (by omega), hout]
    simp [hend, hin, hsize, houtput]

theorem encode_fits (hzlib : Zlib compress codec) (hlimits : limits.validate = .ok ())
    (hpayload : payload.length ≤ limits.payload) (hframe : payload.length + 10 ≤ limits.frame) :
    ∃ frame, encode compress codec limits payload = .ok frame := by
  obtain ⟨-, -, hplain⟩ := Limits.validate_eq_ok.mp hlimits
  obtain ⟨compressed, hcompress⟩ := hzlib.compresses payload (by omega)
  have hstored : (if compressed.length ≥ payload.length then payload else compressed).length + 10 ≤
      limits.frame := by
    split_ifs <;> omega
  unfold encode
  simp only [hlimits, hcompress]
  rw [if_neg (by omega), if_neg (by omega)]
  exact ⟨_, rfl⟩

/-- The fields of an accepted frame agree with its bytes and with the payload. -/
structure Consistent (codec : Codec) (limits : Limits) (frame payload : List UInt8) : Prop where
  total : u16At frame 0 = frame.length
  within : 10 ≤ frame.length ∧ frame.length ≤ limits.frame
  stored : u16At frame 4 = ((frame.take (frame.length - 4)).drop 6).length
  checksum : u32At frame (frame.length - 4) = (codec.crc32 (frame.take (frame.length - 4))).toNat
  declared : payload.length = u16At frame 2
  bounded : payload.length ≤ limits.payload

theorem consistent_of_decode (hzlib : Zlib compress codec)
    (h : decode codec limits frame = .ok payload) : Consistent codec limits frame payload := by
  unfold decode at h
  cases hv : limits.validate with
  | error e => simp [hv] at h
  | ok u =>
    simp only [hv] at h
    split at h
    · cases h
    rename_i hfields
    simp only [Bool.or_eq_true, not_or, decide_eq_true_eq, Bool.not_eq_true, bne_eq_false_iff_eq,
      Bool.not_eq_false'] at hfields
    obtain ⟨⟨hten, hheader⟩, htotal⟩ := hfields
    obtain ⟨⟨-, hlimit⟩, hplain, hstored⟩ := validHeader_iff.mp hheader
    have hbody : ((frame.take (frame.length - 4)).drop 6).length = frame.length - 4 - 6 := by
      rw [List.length_drop, List.length_take]
      omega
    split at h
    · cases h
    rename_i hcrc
    have hdeclared : payload.length = u16At frame 2 := by
      split at h
      · rename_i hraw
        cases h
        omega
      · cases hd : codec.decompress ((frame.take (frame.length - 4)).drop 6) (u16At frame 2 + 1) with
        | error e => simp [hd] at h
        | ok out =>
          simp only [hd] at h
          split at h
          · cases h
          rename_i hsizes
          simp only [Bool.or_eq_true, not_or, Bool.not_eq_true, bne_eq_false_iff_eq] at hsizes
          cases h
          have hout := hzlib.sizes _ _ _ hd
          rw [List.length_take]
          omega
    exact ⟨htotal, ⟨by omega, by omega⟩, by omega, by simpa using (not_not.mp hcrc).symm, hdeclared,
      by omega⟩

/-- What the envelope promises under one pair of limits. -/
structure EnvelopeLaws (compress : Compress) (codec : Codec) (limits : Limits) : Prop where
  returns : ∀ payload frame, encode compress codec limits payload = .ok frame →
    decode codec limits frame = .ok payload
  encodes : ∀ payload : List UInt8, payload.length ≤ limits.payload →
    payload.length + 10 ≤ limits.frame → ∃ frame, encode compress codec limits payload = .ok frame
  consistent : ∀ frame payload, decode codec limits frame = .ok payload →
    Consistent codec limits frame payload

theorem envelope_laws (hzlib : Zlib compress codec) (hlimits : limits.validate = .ok ()) :
    EnvelopeLaws compress codec limits where
  returns _ _ h := decode_encode hzlib h
  encodes _ hpayload hframe := encode_fits hzlib hlimits hpayload hframe
  consistent _ _ h := consistent_of_decode hzlib h

end RoundTrip

namespace Sample

def adler32 (bytes : List UInt8) : UInt32 :=
  let sums := bytes.foldl (fun x b => ((x.1 + b.toNat) % 65521, (x.2 + (x.1 + b.toNat)) % 65521)) (1, 0)
  (sums.2 * 65536 + sums.1).toUInt32

/-- A zlib stream of one stored block. -/
def deflate : Compress := fun payload =>
  .ok ([0x78, 0x01, 0x01] ++ (toLeBytes payload.length.toUInt16 ++
    (toLeBytes (65535 - payload.length).toUInt16 ++
      (payload ++ (toLeBytes32 (adler32 payload)).reverse))))

def inflate (stream : List UInt8) (room : Nat) : Except String Decompressed :=
  let size := u16At stream 3
  let data := (stream.drop 7).take size
  if stream.take 3 = [0x78, 0x01, 0x01] ∧ u16At stream 5 = 65535 - size ∧
      size + 11 ≤ stream.length ∧ size < room ∧
      (stream.drop (7 + size)).take 4 = (toLeBytes32 (adler32 data)).reverse then
    .ok ⟨true, size + 11, size, data⟩
  else .error "corrupt deflate stream"

def zlib : Codec := ⟨crc32, inflate⟩

theorem zlib_laws : Zlib deflate zlib where
  compresses payload _ := ⟨_, rfl⟩
  inverts := by
    intro payload stream room hpayload hstream hroom
    obtain rfl := Except.ok.inj hstream
    have hcomplement : (65535 - payload.length).toUInt16.toNat = 65535 - payload.length := by
      simpa using Nat.mod_eq_of_lt (show 65535 - payload.length < 65536 by omega)
    have hsize : u16At ([0x78, 0x01, 0x01] ++ (toLeBytes payload.length.toUInt16 ++
        (toLeBytes (65535 - payload.length).toUInt16 ++
          (payload ++ (toLeBytes32 (adler32 payload)).reverse)))) 3 = payload.length :=
      (u16At_append_left [0x78, 0x01, 0x01] _ 0).trans ((u16At_toLeBytes _ _).trans (toNat_length hpayload))
    have hcheck : u16At ([0x78, 0x01, 0x01] ++ (toLeBytes payload.length.toUInt16 ++
        (toLeBytes (65535 - payload.length).toUInt16 ++
          (payload ++ (toLeBytes32 (adler32 payload)).reverse)))) 5 = 65535 - payload.length := by
      refine (u16At_append_left [0x78, 0x01, 0x01] _ 2).trans ?_
      exact (u16At_append_left (toLeBytes _) _ 0).trans ((u16At_toLeBytes _ _).trans hcomplement)
    have hdrop : ([0x78, 0x01, 0x01] ++ (toLeBytes payload.length.toUInt16 ++
        (toLeBytes (65535 - payload.length).toUInt16 ++
          (payload ++ (toLeBytes32 (adler32 payload)).reverse)))).drop 7 =
        payload ++ (toLeBytes32 (adler32 payload)).reverse := rfl
    refine ⟨⟨true, payload.length + 11, payload.length, payload⟩, ?_, rfl, ?_, rfl⟩
    · simp only [zlib, inflate, hsize, hcheck, hdrop, List.take_left, ← List.drop_drop,
        List.drop_left]
      refine if_pos ⟨rfl, trivial, ?_, hroom, rfl⟩
      simp [toLeBytes, toLeBytes32]
    · simp [toLeBytes, toLeBytes32]
  sizes := by
    intro stream room out h
    simp only [zlib, inflate] at h
    split at h
    · rename_i hfields
      cases h
      have hdata : ((stream.drop 7).take (u16At stream 3)).length = u16At stream 3 := by
        rw [List.length_take, List.length_drop]
        omega
      exact hdata.symm
    · cases h

end Sample

/-- The compressed stream of "hi" is longer, so the payload is stored as it is. -/
theorem envelope_laws_sample :
    decode Sample.zlib Sample.limits [12, 0, 2, 0, 2, 0, 0x68, 0x69, 245, 155, 6, 76] =
      .ok [0x68, 0x69] ∧
    ∃ frame, encode Sample.deflate Sample.zlib Sample.limits [0x68, 0x69] = .ok frame :=
  have laws : EnvelopeLaws Sample.deflate Sample.zlib Sample.limits :=
    envelope_laws Sample.zlib_laws rfl
  ⟨laws.returns [0x68, 0x69] [12, 0, 2, 0, 2, 0, 0x68, 0x69, 245, 155, 6, 76] (by decide +kernel),
    laws.encodes [0x68, 0x69] (by decide) (by decide)⟩

end RcdServer.Communicate
