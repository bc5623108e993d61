import Mathlib.Data.Nat.Bitwise
import RcdServer.Protocol.Frame

/-!
# Bits of a point

`parseStatus` assembles up to five bytes in a 64-bit number, shifts it and masks it. Here the
bits of what it reads are named one by one, for both byte orders, and the arithmetic is run
once more with every subtraction, shift and index checked.
-/
namespace RcdServer.Protocol

/-! ## Bits of combined bytes -/

theorem testBit_byte_high (b : UInt8) {j : Nat} (hj : 8 ≤ j) : b.toNat.testBit j = false := by
  apply Nat.testBit_lt_two_pow
  have hb : b.toNat < 2 ^ 8 := b.toNat_lt
  exact hb.trans_le (Nat.pow_le_pow_right (by omega) hj)

/-- One byte shifted in below what was there. -/
theorem testBit_shiftIn (acc : UInt64) (b : UInt8) {j : Nat} (hj : j < 64) :
    ((acc <<< 8) ||| b.toUInt64).toNat.testBit j =
      if j < 8 then b.toNat.testBit j else acc.toNat.testBit (j - 8) := by
  have hshift : (acc <<< 8).toNat = acc.toNat <<< 8 % 2 ^ 64 := UInt64.toNat_shiftLeft acc 8
  rw [UInt64.toNat_or, Nat.testBit_or, hshift, Nat.testBit_mod_two_pow, Nat.testBit_shiftLeft,
    UInt8.toNat_toUInt64]
  by_cases hlow : j < 8
  · have hge : ¬ 8 ≤ j := by omega
    simp [hlow, hge]
  · have hge : 8 ≤ j := by omega
    simp [hlow, hge, hj, testBit_byte_high b hge]

theorem testBit_littleEndian (bytes : List UInt8) {j : Nat} (hj : j < 64) :
    (combineBytes false bytes).toNat.testBit j =
      (bytes.getD (j / 8) 0).toNat.testBit (j % 8) := by
  induction bytes generalizing j with
  | nil => simp [combineBytes]
  | cons b bytes ih =>
    have hcons : combineBytes false (b :: bytes) =
        (combineBytes false bytes <<< 8) ||| b.toUInt64 := rfl
    rw [hcons, testBit_shiftIn _ b hj]
    by_cases hlow : j < 8
    · rw [if_pos hlow, Nat.div_eq_of_lt hlow, Nat.mod_eq_of_lt hlow]
      rfl
    · have hdiv : j / 8 = (j - 8) / 8 + 1 := by omega
      have hmod : (j - 8) % 8 = j % 8 := by omega
      rw [if_neg hlow, ih (by omega), hdiv, hmod]
      rfl

/-- The big-endian number is the little-endian number of the bytes in reverse. -/
theorem combineBytes_reverse (bytes : List UInt8) :
    combineBytes true bytes = combineBytes false bytes.reverse := by
  simp only [combineBytes, Bool.false_eq_true, if_false, if_true, List.foldr_reverse]

/-! ## Bits of a raw value -/

theorem testBit_masked (combined : UInt64) {offset numBits i : Nat} (hoffset : offset < 8)
    (hbits : numBits ≤ 32) (hi : i < 32) :
    ((combined >>> UInt64.ofNat offset) &&& UInt64.ofNat (2 ^ numBits - 1)).toUInt32.toNat.testBit
        i = (decide (i < numBits) && combined.toNat.testBit (offset + i)) := by
  have hofs : (UInt64.ofNat offset).toNat % 64 = offset := by
    rw [UInt64.toNat_ofNat']
    omega
  have hmask : (UInt64.ofNat (2 ^ numBits - 1)).toNat = 2 ^ numBits - 1 := by
    have hpow : 2 ^ numBits ≤ 2 ^ 32 := Nat.pow_le_pow_right (by omega) hbits
    rw [UInt64.toNat_ofNat']
    omega
  rw [UInt64.toNat_toUInt32, Nat.testBit_mod_two_pow, UInt64.toNat_and, Nat.testBit_and,
    UInt64.toNat_shiftRight, hofs, hmask, Nat.testBit_shiftRight, Nat.testBit_two_pow_sub_one]
  simp only [hi, decide_true, Bool.true_and]
  exact Bool.and_comm _ _

/-- Where the bytes of a range begin and end in the status bytes. -/
structure RangeBytes (data : List UInt8) (record : Record) (startBit endBit : UInt32) : Prop where
  ordered : startBit.toNat ≤ endBit.toNat
  width : endBit.toNat - startBit.toNat < 32
  based : 0 < record.byteIndex.toNat
  inside : record.byteIndex.toNat - 1 + endBit.toNat / 8 < data.length

theorem rawValue_range {data : List UInt8} {record : Record} {startBit endBit raw : UInt32}
    (hindex : record.bitIndex = .range startBit endBit)
    (h : rawValue data record = some raw) :
    RangeBytes data record startBit endBit ∧
      raw = ((combineBytes (record.byteOrder == 1)
          ((data.take (record.byteIndex.toNat - 1 + endBit.toNat / 8 + 1)).drop
            (record.byteIndex.toNat - 1 + startBit.toNat / 8)) >>>
          UInt64.ofNat (startBit.toNat % 8)) &&&
        UInt64.ofNat (2 ^ (endBit.toNat - startBit.toNat + 1) - 1)).toUInt32 := by
  unfold rawValue at h
  rw [hindex] at h
  dsimp only at h
  split_ifs at h with hbased hlength hrange hend hbits
  refine ⟨⟨?_, ?_, ?_, ?_⟩, (Option.some.inj h).symm⟩ <;> omega

theorem rawValue_single {data : List UInt8} {record : Record} {bit raw : UInt32}
    (hindex : record.bitIndex = .single bit) (h : rawValue data record = some raw) :
    bit.toNat < 8 ∧ record.byteIndex.toNat - 1 < data.length ∧ 0 < record.byteIndex.toNat ∧
      raw = ((data.getD (record.byteIndex.toNat - 1) 0 >>> bit.toUInt8) &&& 1).toUInt32 := by
  unfold rawValue at h
  rw [hindex] at h
  dsimp only at h
  split_ifs at h with hbased hlength hbit
  refine ⟨?_, ?_, ?_, (Option.some.inj h).symm⟩ <;> omega

theorem getD_window (data : List UInt8) {first last k : Nat} (hk : first + k ≤ last) :
    ((data.take (last + 1)).drop first).getD k 0 = data.getD (first + k) 0 := by
  rw [List.getD_eq_getElem?_getD, List.getElem?_drop, List.getElem?_take_of_lt (by omega),
    ← List.getD_eq_getElem?_getD]

theorem getD_window_reverse (data : List UInt8) {first last k : Nat} (hlast : last < data.length)
    (hk : first + k ≤ last) :
    ((data.take (last + 1)).drop first).reverse.getD k 0 = data.getD (last - k) 0 := by
  have hlen : ((data.take (last + 1)).drop first).length = last + 1 - first := by
    rw [List.length_drop, List.length_take]
    omega
  rw [List.getD_eq_getElem?_getD, List.getElem?_reverse (by omega), hlen,
    ← List.getD_eq_getElem?_getD, getD_window data (by omega)]
  congr 1
  omega

theorem testBit_single {data : List UInt8} {record : Record} {bit raw : UInt32}
    (hindex : record.bitIndex = .single bit) (h : rawValue data record = some raw) (i : Nat) :
    raw.toNat.testBit i =
      (decide (i = 0) && (data.getD (record.byteIndex.toNat - 1) 0).toNat.testBit bit.toNat) := by
  obtain ⟨hbit, -, -, rfl⟩ := rawValue_single hindex h
  have hshift : bit.toUInt8.toNat % 8 = bit.toNat := by
    rw [UInt32.toNat_toUInt8]
    omega
  rw [UInt8.toNat_toUInt32, UInt8.toNat_and, Nat.testBit_and, UInt8.toNat_shiftRight, hshift,
    Nat.testBit_shiftRight]
  have hone : (1 : UInt8).toNat.testBit i = decide (i = 0) := by
    cases i with
    | zero => rfl
    | succ i => simp [Nat.testBit_succ]
  rw [hone]
  by_cases hi : i = 0
  · simp [hi]
  · simp [hi]

theorem testBit_range_little {data : List UInt8} {record : Record} {startBit endBit raw : UInt32}
    (hindex : record.bitIndex = .range startBit endBit) (horder : record.byteOrder ≠ 1)
    (h : rawValue data record = some raw) {i : Nat} (hi : i < 32) :
    raw.toNat.testBit i =
      (decide (i ≤ endBit.toNat - startBit.toNat) &&
        (data.getD (record.byteIndex.toNat - 1 + (startBit.toNat + i) / 8) 0).toNat.testBit
          ((startBit.toNat + i) % 8)) := by
  obtain ⟨hbytes, rfl⟩ := rawValue_range hindex h
  have hwidth := hbytes.width
  have hle := hbytes.ordered
  rw [testBit_masked _ (Nat.mod_lt _ (by omega)) (by omega) hi, beq_false_of_ne horder]
  by_cases hin : i ≤ endBit.toNat - startBit.toNat
  · have hlt : i < endBit.toNat - startBit.toNat + 1 := by omega
    have hdiv : (startBit.toNat % 8 + i) / 8 + startBit.toNat / 8 = (startBit.toNat + i) / 8 := by
      omega
    have hmod : (startBit.toNat % 8 + i) % 8 = (startBit.toNat + i) % 8 := by omega
    rw [testBit_littleEndian _ (by omega), getD_window data (by omega), hmod, Nat.add_assoc,
      Nat.add_comm (startBit.toNat / 8), hdiv]
    simp only [hlt, hin, decide_true]
  · have hge : ¬ i < endBit.toNat - startBit.toNat + 1 := by omega
    simp only [hge, hin, decide_false, Bool.false_and]

/-- Byte `k` of a big-endian range counts from the last byte of the range. -/
theorem testBit_range_big {data : List UInt8} {record : Record} {startBit endBit raw : UInt32}
    (hindex : record.bitIndex = .range startBit endBit) (horder : record.byteOrder = 1)
    (h : rawValue data record = some raw) {i : Nat} (hi : i < 32) :
    raw.toNat.testBit i =
      (decide (i ≤ endBit.toNat - startBit.toNat) &&
        (data.getD (record.byteIndex.toNat - 1 + endBit.toNat / 8 - (startBit.toNat % 8 + i) / 8)
          0).toNat.testBit ((startBit.toNat % 8 + i) % 8)) := by
  obtain ⟨hbytes, rfl⟩ := rawValue_range hindex h
  have hwidth := hbytes.width
  have hle := hbytes.ordered
  have hinside := hbytes.inside
  rw [testBit_masked _ (Nat.mod_lt _ (by omega)) (by omega) hi, horder, beq_self_eq_true,
    combineBytes_reverse]
  by_cases hin : i ≤ endBit.toNat - startBit.toNat
  · have hlt : i < endBit.toNat - startBit.toNat + 1 := by omega
    rw [testBit_littleEndian _ (by omega), getD_window_reverse data hinside (by omega)]
    simp only [hlt, hin, decide_true]
  · have hge : ¬ i < endBit.toNat - startBit.toNat + 1 := by omega
    simp only [hge, hin, decide_false, Bool.false_and]

/-! ## Checked arithmetic -/

/-- What a debug build stops at. -/
inductive Panic where
  | overflow
  | shiftWidth
  | indexBounds
  deriving DecidableEq

abbrev Checked := Except Panic

/-- A sum or product of a type of the given width. -/
def fitChecked (width n : Nat) : Checked Nat :=
  if n < 2 ^ width then .ok n else .error .overflow

def subChecked (a b : Nat) : Checked Nat := if b ≤ a then .ok (a - b) else .error .overflow

/-- The count of a shift of a value of the given width. -/
def shiftChecked (width count : Nat) : Checked Nat :=
  if count < width then .ok count else .error .shiftWidth

def indexChecked (data : List UInt8) (i : Nat) : Checked UInt8 :=
  match data[i]? with
  | some byte => .ok byte
  | none => .error .indexBounds

theorem fitChecked_ok {width n : Nat} (h : n < 2 ^ width) : fitChecked width n = .ok n := by
  rw [fitChecked, if_pos h]

theorem subChecked_ok {a b : Nat} (h : b ≤ a) : subChecked a b = .ok (a - b) := by
  rw [subChecked, if_pos h]

theorem shiftChecked_ok {width count : Nat} (h : count < width) :
    shiftChecked width count = .ok count := by
  rw [shiftChecked, if_pos h]

theorem indexChecked_ok {data : List UInt8} {i : Nat} (h : i < data.length) :
    indexChecked data i = .ok (data.getD i 0) := by
  rw [indexChecked, List.getElem?_eq_getElem h, List.getD_eq_getElem?_getD,
    List.getElem?_eq_getElem h]
  rfl

/-- The loop of `parse_status` over the bytes of a range with their positions. -/
def combineChecked (bigEndian : Bool) (startByte : Nat) :
    List (UInt8 × Nat) → UInt64 → Checked UInt64
  | [], combined => .ok combined
  | (byte, i) :: rest, combined =>
    if bigEndian then combineChecked bigEndian startByte rest ((combined <<< 8) ||| byte.toUInt64)
    else do
      let behind ← subChecked i startByte
      let count ← fitChecked 32 (8 * behind)
      let count ← shiftChecked 64 count
      combineChecked bigEndian startByte rest
        (combined ||| (byte.toUInt64 <<< UInt64.ofNat count))

def maskChecked (numBits : Nat) : Checked UInt64 :=
  if numBits = 32 then .ok 0xFFFFFFFF
  else do
    let count ← shiftChecked 64 numBits
    let mask ← subChecked (2 ^ count) 1
    .ok (UInt64.ofNat mask)

def singleChecked (data : List UInt8) (byteIndex : Nat) (bit : UInt32) :
    Checked (Option UInt32) :=
  if bit.toNat ≥ 8 then .ok none
  else do
    let byte ← indexChecked data byteIndex
    let count ← shiftChecked 8 bit.toNat
    .ok (some ((byte >>> UInt8.ofNat count) &&& 1).toUInt32)

def rangeChecked (data : List UInt8) (byteIndex : Nat) (bigEndian : Bool)
    (startBit endBit : UInt32) : Checked (Option UInt32) := do
  let bits ← fitChecked 32 (data.length * 8)
  let totalBits := bits % 2 ^ 32
  if startBit.toNat > endBit.toNat ∨ endBit.toNat ≥ totalBits then .ok none
  else do
    let startByte ← fitChecked 32 (byteIndex + startBit.toNat / 8)
    let endByte ← fitChecked 32 (byteIndex + endBit.toNat / 8)
    if endByte ≥ data.length then .ok none
    else do
      let width ← subChecked endBit.toNat startBit.toNat
      let numBits ← fitChecked 32 (width + 1)
      if numBits > 32 then .ok none
      else do
        let stop ← fitChecked 32 (endByte + 1)
        let combined ←
          combineChecked bigEndian startByte ((data.zipIdx.take stop).drop startByte) 0
        let count ← shiftChecked 64 (startBit.toNat % 8)
        let mask ← maskChecked numBits
        .ok (some ((combined >>> UInt64.ofNat count) &&& mask).toUInt32)

/-- `rawValue` with every operation checked; `usize` is taken with 32 bits, the narrowest in which
a `u32` fits. -/
def rawValueChecked (data : List UInt8) (record : Record) : Checked (Option UInt32) :=
  if record.byteIndex.toNat = 0 then .ok none
  else do
    let byteIndex ← subChecked record.byteIndex.toNat 1
    if byteIndex ≥ data.length then .ok none
    else
      match record.bitIndex with
      | .single bit => singleChecked data byteIndex bit
      | .range startBit endBit =>
        rangeChecked data byteIndex (record.byteOrder == 1) startBit endBit

theorem combineChecked_big (startByte : Nat) (rows : List (UInt8 × Nat)) (acc : UInt64) :
    combineChecked true startByte rows acc =
      .ok ((rows.map Prod.fst).foldl (fun acc b => (acc <<< 8) ||| b.toUInt64) acc) := by
  induction rows generalizing acc with
  | nil => rfl
  | cons row rows ih =>
    rw [combineChecked, if_pos rfl, ih]
    rfl

theorem testBit_shiftOut (b : UInt8) {k j : Nat} (hk : k < 8) (hj : j < 64) :
    (b.toUInt64 <<< UInt64.ofNat (8 * k)).toNat.testBit j =
      (decide (8 * k ≤ j) && b.toNat.testBit (j - 8 * k)) := by
  have hcount : (UInt64.ofNat (8 * k)).toNat % 64 = 8 * k := by
    rw [UInt64.toNat_ofNat']
    omega
  rw [UInt64.toNat_shiftLeft, hcount, UInt8.toNat_toUInt64, Nat.testBit_mod_two_pow,
    Nat.testBit_shiftLeft]
  simp only [hj, decide_true, Bool.true_and, ge_iff_le]

/-- Up to eight bytes are placed side by side without a shift out of range. -/
theorem combineChecked_little (startByte : Nat) (bytes : List UInt8) (k : Nat) (acc : UInt64)
    (hlen : k + bytes.length ≤ 8) :
    ∃ out, combineChecked false startByte (bytes.zipIdx (startByte + k)) acc = .ok out ∧
      ∀ j < 64, out.toNat.testBit j = (acc.toNat.testBit j ||
        (decide (8 * k ≤ j) && (combineBytes false bytes).toNat.testBit (j - 8 * k))) := by
  induction bytes generalizing k acc with
  | nil =>
    refine ⟨acc, rfl, fun j _ => ?_⟩
    simp [combineBytes]
  | cons b bytes ih =>
    have hk : k < 8 := by
      rw [List.length_cons] at hlen
      omega
    obtain ⟨out, hout, hbits⟩ := ih (k + 1) (acc ||| (b.toUInt64 <<< UInt64.ofNat (8 * k))) (by
      rw [List.length_cons] at hlen
      omega)
    refine ⟨out, ?_, fun j hj => ?_⟩
    · have hbehind : startByte + k - startByte = k := by omega
      rw [List.zipIdx_cons, combineChecked, if_neg Bool.false_ne_true,
        subChecked_ok (Nat.le_add_right _ _), hbehind]
      simp only [bind, Except.bind, fitChecked_ok (show 8 * k < 2 ^ 32 by omega),
        shiftChecked_ok (show 8 * k < 64 by omega)]
      exact hout
    · have hcons : combineBytes false (b :: bytes) =
          (combineBytes false bytes <<< 8) ||| b.toUInt64 := rfl
      rw [hbits j hj, UInt64.toNat_or, Nat.testBit_or, testBit_shiftOut b hk hj, hcons,
        testBit_shiftIn _ b (by omega), Bool.or_assoc]
      congr 1
      by_cases hlow : 8 * k ≤ j
      · by_cases hin : j - 8 * k < 8
        · have hout : ¬ 8 * (k + 1) ≤ j := by omega
          simp only [hlow, hin, hout, decide_true, decide_false, Bool.true_and, Bool.false_and,
            Bool.or_false, if_true]
        · have hnext : 8 * (k + 1) ≤ j := by omega
          have hsub : j - 8 * k - 8 = j - 8 * (k + 1) := by omega
          simp only [hlow, hin, hnext, decide_true, Bool.true_and, if_false, hsub,
            testBit_byte_high b (Nat.le_of_not_lt hin), Bool.false_or]
      · have hnext : ¬ 8 * (k + 1) ≤ j := by omega
        simp only [hlow, hnext, decide_false, Bool.false_and, Bool.or_false]

theorem toNat_eq_of_testBit {a b : UInt64}
    (h : ∀ j < 64, a.toNat.testBit j = b.toNat.testBit j) : a = b := by
  apply UInt64.toNat_inj.mp
  apply Nat.eq_of_testBit_eq
  intro j
  by_cases hj : j < 64
  · exact h j hj
  · have hpow : 2 ^ 64 ≤ 2 ^ j := Nat.pow_le_pow_right (by omega) (by omega)
    rw [Nat.testBit_lt_two_pow (a.toNat_lt.trans_le hpow),
      Nat.testBit_lt_two_pow (b.toNat_lt.trans_le hpow)]

theorem window_zipIdx (data : List UInt8) (first stop : Nat) :
    (data.zipIdx.take stop).drop first = ((data.take stop).drop first).zipIdx first := by
  apply List.ext_getElem?
  intro i
  rw [List.getElem?_drop, List.getElem?_zipIdx, List.getElem?_drop, List.getElem?_take,
    List.getElem?_take, List.getElem?_zipIdx]
  split_ifs
  · rw [Nat.zero_add]
  · rfl

theorem combineChecked_eq (bigEndian : Bool) (data : List UInt8) {first last : Nat}
    (hshort : last + 1 ≤ first + 8) :
    combineChecked bigEndian first ((data.zipIdx.take (last + 1)).drop first) 0 =
      .ok (combineBytes bigEndian ((data.take (last + 1)).drop first)) := by
  rw [window_zipIdx]
  cases bigEndian with
  | true =>
    rw [combineChecked_big, List.zipIdx_map_fst]
    rfl
  | false =>
    have hlen : 0 + ((data.take (last + 1)).drop first).length ≤ 8 := by
      rw [List.length_drop, List.length_take]
      omega
    obtain ⟨out, hout, hbits⟩ :=
      combineChecked_little first ((data.take (last + 1)).drop first) 0 0 hlen
    refine Eq.trans hout (congrArg Except.ok (toNat_eq_of_testBit fun j hj => ?_))
    rw [hbits j hj]
    simp

theorem maskChecked_ok {numBits : Nat} (h : numBits ≤ 32) :
    maskChecked numBits = .ok (UInt64.ofNat (2 ^ numBits - 1)) := by
  unfold maskChecked
  by_cases hfull : numBits = 32
  · rw [if_pos hfull, hfull]
    rfl
  · rw [if_neg hfull]
    simp only [bind, Except.bind, shiftChecked_ok (show numBits < 64 by omega),
      subChecked_ok (Nat.one_le_two_pow)]

/-- Reading a point never overflows, shifts too far or indexes past the end. -/
theorem rawValueChecked_eq {data : List UInt8} (record : Record) (hlen : data.length ≤ 256) :
    rawValueChecked data record = .ok (rawValue data record) := by
  unfold rawValueChecked rawValue
  by_cases hzero : record.byteIndex.toNat = 0
  · rw [if_pos hzero, if_pos hzero]
  rw [if_neg hzero, if_neg hzero, subChecked_ok (by omega)]
  dsimp only [bind, Except.bind]
  by_cases hpast : record.byteIndex.toNat - 1 ≥ data.length
  · rw [if_pos hpast, if_pos hpast]
  rw [if_neg hpast, if_neg hpast]
  cases record.bitIndex with
  | single bit =>
    dsimp only [singleChecked]
    by_cases hbit : bit.toNat ≥ 8
    · rw [if_pos hbit, if_pos hbit]
    rw [if_neg hbit, if_neg hbit, indexChecked_ok (by omega), shiftChecked_ok (by omega)]
    rfl
  | range startBit endBit =>
    dsimp only [rangeChecked]
    rw [fitChecked_ok (by omega)]
    dsimp only [bind, Except.bind]
    by_cases hrange :
        startBit.toNat > endBit.toNat ∨ endBit.toNat ≥ data.length * 8 % 2 ^ 32
    · rw [if_pos hrange, if_pos hrange]
    rw [if_neg hrange, if_neg hrange, fitChecked_ok (by omega), fitChecked_ok (by omega)]
    dsimp only
    by_cases hend : record.byteIndex.toNat - 1 + endBit.toNat / 8 ≥ data.length
    · rw [if_pos hend, if_pos hend]
    rw [if_neg hend, if_neg hend, subChecked_ok (by omega)]
    dsimp only
    rw [fitChecked_ok (by omega)]
    dsimp only
    by_cases hwide : endBit.toNat - startBit.toNat + 1 > 32
    · rw [if_pos hwide, if_pos hwide]
    rw [if_neg hwide, if_neg hwide, fitChecked_ok (by omega)]
    dsimp only
    rw [combineChecked_eq _ data (by omega), shiftChecked_ok (by omega),
      maskChecked_ok (by omega)]

/-- `recordBoundsError` with every operation checked, in 64 bits as the source has it. -/
def recordBoundsChecked (record : Record) (dataLen : Nat) : Checked (Option String) :=
  if record.byteIndex.toNat = 0 then .ok (some "byte_index=0，但该字段从 1 开始计数")
  else do
    let byteIndex ← subChecked record.byteIndex.toNat 1
    if byteIndex ≥ dataLen then
      .ok (some s!"byte_index={record.byteIndex.toNat} 超出状态数据长度 1..={dataLen}")
    else
      match record.bitIndex with
      | .single bit =>
        .ok (if bit.toNat ≥ 8 then some s!"bit_index={bit.toNat} 超出单字节位范围 0..=7" else none)
      | .range first last =>
        if first.toNat > last.toNat then
          .ok (some s!"位范围 {first.toNat}..{last.toNat} 起点大于终点")
        else do
          let width ← subChecked last.toNat first.toNat
          let numBits ← fitChecked 64 (width + 1)
          if numBits > 32 then
            .ok (some s!"位范围 {first.toNat}..{last.toNat} 宽度为 {numBits}，超过 u32 的 32 位上限")
          else do
            let endByte ← fitChecked 64 (byteIndex + last.toNat / 8)
            if endByte ≥ dataLen then do
              let position ← fitChecked 64 (endByte + 1)
              .ok (some s!"位范围 {first.toNat}..{last.toNat} 需要访问第 {position} 字节，但状态数据只有 {dataLen} 字节")
            else .ok none

theorem recordBoundsChecked_eq (record : Record) (dataLen : Nat) :
    recordBoundsChecked record dataLen = .ok (recordBoundsError record dataLen) := by
  have hbyte : record.byteIndex.toNat < 2 ^ 32 := record.byteIndex.toNat_lt
  unfold recordBoundsChecked recordBoundsError
  by_cases hzero : record.byteIndex.toNat = 0
  · rw [if_pos hzero, if_pos hzero]
  rw [if_neg hzero, if_neg hzero, subChecked_ok (by omega)]
  dsimp only [bind, Except.bind]
  by_cases hpast : record.byteIndex.toNat - 1 ≥ dataLen
  · rw [if_pos hpast, if_pos hpast]
  rw [if_neg hpast, if_neg hpast]
  cases record.bitIndex with
  | single bit => rfl
  | range first last =>
    have hlast : last.toNat < 2 ^ 32 := last.toNat_lt
    dsimp only
    by_cases hrange : first.toNat > last.toNat
    · rw [if_pos hrange, if_pos hrange]
    rw [if_neg hrange, if_neg hrange, subChecked_ok (by omega)]
    dsimp only
    rw [fitChecked_ok (by omega)]
    dsimp only
    by_cases hwide : last.toNat - first.toNat + 1 > 32
    · rw [if_pos hwide, if_pos hwide]
    rw [if_neg hwide, if_neg hwide, fitChecked_ok (by omega)]
    dsimp only
    by_cases hend : record.byteIndex.toNat - 1 + last.toNat / 8 ≥ dataLen
    · rw [if_pos hend, if_pos hend, fitChecked_ok (by omega)]
    · rw [if_neg hend, if_neg hend]

/-! ## Points of a table -/

/-- One turn of the loop over the records. -/
def storePoint (data : List UInt8) (results : PointMap) (record : Record) : PointMap :=
  match pointValue data record with
  | some v => results.insert record.kks v
  | none => results

theorem parseStatus_eq (data : List UInt8) (records : List Record) :
    parseStatus data records = records.foldl (storePoint data) ∅ := rfl

theorem lookup_storePoint_ne {data : List UInt8} {record : Record} {k : String}
    (h : record.kks ≠ k) (results : PointMap) :
    (storePoint data results record).lookup k = results.lookup k := by
  unfold storePoint
  cases pointValue data record with
  | none => rfl
  | some v => exact AList.lookup_insert_ne (Ne.symm h)

theorem lookup_storePoint (data : List UInt8) (results : PointMap) (record : Record) :
    (storePoint data results record).lookup record.kks =
      (pointValue data record).or (results.lookup record.kks) := by
  unfold storePoint
  cases pointValue data record with
  | none => rfl
  | some v => exact AList.lookup_insert _

theorem lookup_storePoints_notMem {data : List UInt8} {records : List Record} {k : String}
    (h : k ∉ records.map Record.kks) (results : PointMap) :
    (records.foldl (storePoint data) results).lookup k = results.lookup k := by
  induction records generalizing results with
  | nil => rfl
  | cons r rest ih =>
    rw [List.map_cons, List.mem_cons, not_or] at h
    rw [List.foldl_cons, ih h.2, lookup_storePoint_ne (Ne.symm h.1)]

theorem lookup_storePoints_mem {data : List UInt8} {records : List Record}
    (hnodup : (records.map Record.kks).Nodup) {r : Record} (hr : r ∈ records)
    (results : PointMap) :
    (records.foldl (storePoint data) results).lookup r.kks =
      (pointValue data r).or (results.lookup r.kks) := by
  induction records generalizing results with
  | nil => cases hr
  | cons first rest ih =>
    obtain ⟨hfresh, hnodup⟩ := List.nodup_cons.mp hnodup
    rw [List.foldl_cons]
    rcases List.mem_cons.mp hr with rfl | hr
    · rw [lookup_storePoints_notMem hfresh, lookup_storePoint]
    · have hne : first.kks ≠ r.kks := fun heq => hfresh (heq ▸ List.mem_map_of_mem hr)
      rw [ih hnodup hr, lookup_storePoint_ne hne]

/-- With distinct names each record decides its own point. -/
theorem lookup_parseStatus {data : List UInt8} {records : List Record}
    (hnodup : (records.map Record.kks).Nodup) {r : Record} (hr : r ∈ records) :
    (parseStatus data records).lookup r.kks = pointValue data r := by
  rw [parseStatus_eq, lookup_storePoints_mem hnodup hr, AList.lookup_empty, Option.or_none]

/-- The bits of the raw value of a record, as the table describes them. -/
structure RawBits (data : List UInt8) (record : Record) (raw : UInt32) : Prop where
  single : ∀ bit, record.bitIndex = .single bit → ∀ i,
    raw.toNat.testBit i =
      (decide (i = 0) && (data.getD (record.byteIndex.toNat - 1) 0).toNat.testBit bit.toNat)
  little : ∀ s e, record.bitIndex = .range s e → record.byteOrder ≠ 1 → ∀ i < 32,
    raw.toNat.testBit i = (decide (i ≤ e.toNat - s.toNat) &&
      (data.getD (record.byteIndex.toNat - 1 + (s.toNat + i) / 8) 0).toNat.testBit
        ((s.toNat + i) % 8))
  big : ∀ s e, record.bitIndex = .range s e → record.byteOrder = 1 → ∀ i < 32,
    raw.toNat.testBit i = (decide (i ≤ e.toNat - s.toNat) &&
      (data.getD (record.byteIndex.toNat - 1 + e.toNat / 8 - (s.toNat % 8 + i) / 8) 0).toNat.testBit
        ((s.toNat % 8 + i) % 8))

theorem rawValue_bits {data : List UInt8} {record : Record} {raw : UInt32}
    (h : rawValue data record = some raw) : RawBits data record raw where
  single := fun _ hindex i => testBit_single hindex h i
  little := fun _ _ hindex horder _ hi => testBit_range_little hindex horder h hi
  big := fun _ _ hindex horder _ hi => testBit_range_big hindex horder h hi

/-- Status areas of up to 256 bytes: the points are those whose record passes the bounds check
and has a known type, each value is read from the bits the record names, and no operation on
the way leaves its range. -/
theorem parse_status_bits {data : List UInt8} {records : List Record} (hlen : data.length ≤ 256)
    (hnodup : (records.map Record.kks).Nodup) :
    (∀ k, k ∈ parseStatus data records ↔ ∃ r ∈ records, r.kks = k ∧
      recordBoundsError r data.length = none ∧ r.type_ ∈ ["uint", "bool", "float"]) ∧
    (∀ r ∈ records, ∀ v, (parseStatus data records).lookup r.kks = some v ↔
      ∃ raw, rawValue data r = some raw ∧ typedValue r.type_ raw = some v) ∧
    (∀ record raw, rawValue data record = some raw → RawBits data record raw) ∧
    ∀ record, rawValueChecked data record = .ok (rawValue data record) ∧
      recordBoundsChecked record data.length = .ok (recordBoundsError record data.length) := by
  refine ⟨fun k => ?_, fun r hr v => ?_, fun _ _ h => rawValue_bits h, fun record => ?_⟩
  · rw [mem_parseStatus]
    refine exists_congr fun r => and_congr_right fun _ => and_congr_right fun _ => ?_
    exact pointValue_isSome (by omega)
  · rw [lookup_parseStatus hnodup hr, pointValue, Option.bind_eq_some_iff]
  · exact ⟨rawValueChecked_eq record hlen, recordBoundsChecked_eq record data.length⟩

/-- Bits 5 to 14 of two bytes, in both orders, and a record past the end. -/
theorem parse_status_bits_sample :
    let little : Record := ⟨"L", "uint", "AI", 1, .range 5 14, 0, 0, 0, 0⟩
    let big : Record := ⟨"B", "uint", "AI", 1, .range 5 14, 0, 0, 0, 1⟩
    let past : Record := ⟨"P", "uint", "AI", 2, .range 5 14, 0, 0, 0, 0⟩
    rawValue [0xA0, 0x15] little = some 0xAD ∧ rawValue [0xA0, 0x15] big = some 0x100 ∧
      "L" ∈ parseStatus [0xA0, 0x15] [little, big, past] ∧
      "P" ∉ parseStatus [0xA0, 0x15] [little, big, past] := by
  intro little big past
  have hkks : ([little, big, past].map Record.kks).Nodup := by decide
  have hsound := parse_status_bits (show [0xA0, 0x15].length ≤ 256 by decide) hkks
  refine ⟨by decide, by decide, ?_, ?_⟩
  · exact (hsound.1 "L").mpr ⟨little, by decide, rfl, by decide, by decide⟩
  · intro hp
    obtain ⟨r, hr, hk, hbounds, _⟩ := (hsound.1 "P").mp hp
    have hpast : ∀ r ∈ [little, big, past], r.kks = "P" → recordBoundsError r 2 ≠ none := by
      decide
    exact hpast r hr hk hbounds

end RcdServer.Protocol
