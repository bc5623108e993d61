import Mathlib.Data.List.AList
import RcdServer.Protocol.PointTable

/-!
# Response frames

`[Addr][CMD][Len][Status × (Len + 1)][CRC]`: the packet parser checks a frame only
against its own length byte and its own checksum. `parseStatus` then reads the
points of a device out of the status bytes and leaves out those that do not fit.
-/
namespace RcdServer.Protocol

inductive Value (F32 F64 : Type) where
  | uint (n : UInt32)
  | bool (b : Bool)
  | float (x : F32)
  | double (x : F64)
  deriving DecidableEq

abbrev PointValue := Value Float32 Float

abbrev PointMap := AList fun _ : String => PointValue

/-! ## Packets -/

def getSum (data : List UInt8) : UInt8 := data.foldl (· + ·) 0

def verifyChecksum (data : List UInt8) : Bool :=
  match data.getLast? with
  | none => false
  | some crc => getSum data.dropLast == crc

structure DataPacket where
  addr : UInt8
  cmd : UInt8
  len : UInt8
  status : List UInt8
  crc : UInt8
  deriving DecidableEq

def parseDataPacket (data : List UInt8) : Except String DataPacket :=
  match data with
  | addr :: cmd :: len :: b :: rest =>
    if len.toNat + 2 ≠ (b :: rest).length then .error "数据帧长度不匹配"
    else if !verifyChecksum data then .error "校验和不匹配"
    else .ok ⟨addr, cmd, len, (b :: rest).dropLast, (b :: rest).getLast (by simp)⟩
  | _ => .error "数据帧过短"

/-- An accepted frame is exactly as long as its length byte says. -/
theorem parseDataPacket_ok {data : List UInt8} {packet : DataPacket}
    (h : parseDataPacket data = .ok packet) :
    data[2]? = some packet.len ∧ data.length = packet.len.toNat + 5 ∧
      packet.status.length = packet.len.toNat + 1 ∧ verifyChecksum data = true := by
  unfold parseDataPacket at h
  split at h
  · rename_i addr cmd len b rest
    split_ifs at h with hlen hsum
    cases h
    simp only [not_not] at hlen
    refine ⟨rfl, ?_, ?_, by simpa using hsum⟩
    · simp only [List.length_cons] at hlen ⊢
      omega
    · rw [List.length_dropLast]
      show (b :: rest).length - 1 = len.toNat + 1
      omega
  · cases h

/-! ## Points -/

/-- The bytes `start..=last` as one number; at most five bytes are ever combined. -/
def combineBytes (bigEndian : Bool) (bytes : List UInt8) : UInt64 :=
  if bigEndian then bytes.foldl (fun acc b => (acc <<< 8) ||| b.toUInt64) 0
  else bytes.foldr (fun b acc => (acc <<< 8) ||| b.toUInt64) 0

/-- The raw value of a point, `none` where `parse_status` skips the record. -/
def rawValue (data : List UInt8) (record : Record) : Option UInt32 :=
  if record.byteIndex.toNat = 0 then none
  else
    let byteIndex := record.byteIndex.toNat - 1
    if byteIndex ≥ data.length then none
    else
      match record.bitIndex with
      | .single bit =>
        if bit.toNat ≥ 8 then none
        else some ((data.getD byteIndex 0 >>> bit.toUInt8) &&& 1).toUInt32
      | .range startBit endBit =>
        let totalBits := data.length * 8 % 2 ^ 32
        if startBit.toNat > endBit.toNat ∨ endBit.toNat ≥ totalBits then none
        else
          let startByte := byteIndex + startBit.toNat / 8
          let endByte := byteIndex + endBit.toNat / 8
          if endByte ≥ data.length then none
          else
            let numBits := endBit.toNat - startBit.toNat + 1
            if numBits > 32 then none
            else
              let bytes := (data.take (endByte + 1)).drop startByte
              let combined := combineBytes (record.byteOrder == 1) bytes
              let mask := UInt64.ofNat (2 ^ numBits - 1)
              some ((combined >>> UInt64.ofNat (startBit.toNat % 8)) &&& mask).toUInt32

def typedValue (type_ : String) (raw : UInt32) : Option PointValue :=
  match type_ with
  | "uint" => some (.uint raw)
  | "bool" => some (.bool (raw != 0))
  | "float" => some (.float (raw.toFloat32 / 100.0))
  | _ => none

def pointValue (data : List UInt8) (record : Record) : Option PointValue :=
  (rawValue data record).bind (typedValue record.type_)

def parseStatus (data : List UInt8) (records : List Record) : PointMap :=
  records.foldl
    (fun results record =>
      match pointValue data record with
      | some v => results.insert record.kks v
      | none => results) ∅

/-- Reading succeeds exactly inside the bounds the table check uses. The cast of the bit count
to 32 bits is harmless for status areas below 2^29 bytes. -/
theorem rawValue_isSome {data : List UInt8} {record : Record} (hlen : data.length * 8 < 2 ^ 32) :
    (rawValue data record).isSome ↔ recordBoundsError record data.length = none := by
  rw [recordBoundsError_eq_none]
  unfold rawValue Record.WellFormed Record.reach
  rw [Nat.mod_eq_of_lt hlen]
  cases record.bitIndex with
  | single bit =>
    dsimp only
    split_ifs <;> simp <;> omega
  | range first last =>
    dsimp only
    split_ifs <;> simp <;> omega

theorem typedValue_isSome {type_ : String} (raw : UInt32) :
    (typedValue type_ raw).isSome ↔ type_ ∈ ["uint", "bool", "float"] := by
  unfold typedValue
  split <;> simp_all

theorem pointValue_isSome {data : List UInt8} {record : Record} (hlen : data.length * 8 < 2 ^ 32) :
    (pointValue data record).isSome ↔
      recordBoundsError record data.length = none ∧ record.type_ ∈ ["uint", "bool", "float"] := by
  rw [← rawValue_isSome hlen, pointValue]
  cases h : rawValue data record with
  | none => simp
  | some raw => simpa using typedValue_isSome raw

private theorem mem_fold_points {data : List UInt8} {k : String} {records : List Record}
    {results : PointMap} :
    k ∈ records.foldl
        (fun results record =>
          match pointValue data record with
          | some v => results.insert record.kks v
          | none => results) results ↔
      k ∈ results ∨ ∃ r ∈ records, r.kks = k ∧ (pointValue data r).isSome := by
  induction records generalizing results with
  | nil => simp
  | cons r rest ih =>
    rw [List.foldl_cons, ih]
    cases h : pointValue data r with
    | none => simp [h]
    | some v =>
      simp only [AList.mem_insert, List.mem_cons, exists_eq_or_imp, h, Option.isSome_some, and_true]
      constructor
      · rintro ((hk | hk) | hk)
        · exact .inr (.inl hk.symm)
        · exact .inl hk
        · exact .inr (.inr hk)
      · rintro (hk | hk | hk)
        · exact .inl (.inr hk)
        · exact .inl (.inl hk.symm)
        · exact .inr hk

/-- A point is in the map exactly when some record of that name can be read. -/
theorem mem_parseStatus {data : List UInt8} {records : List Record} {k : String} :
    k ∈ parseStatus data records ↔ ∃ r ∈ records, r.kks = k ∧ (pointValue data r).isSome := by
  rw [parseStatus, mem_fold_points]
  simp

/-- For an accepted table that is a question of lengths only. -/
theorem mem_parseStatus_accepted {config : Config} {records : List Record} {data : List UInt8}
    {k : String} (hacc : ∀ r ∈ records, r.Accepted config) (hlen : data.length * 8 < 2 ^ 32) :
    k ∈ parseStatus data records ↔
      ∃ r ∈ records, r.kks = k ∧ recordBoundsError r data.length = none := by
  rw [mem_parseStatus]
  constructor
  · rintro ⟨r, hr, hk, hs⟩
    exact ⟨r, hr, hk, ((pointValue_isSome hlen).mp hs).1⟩
  · rintro ⟨r, hr, hk, hb⟩
    exact ⟨r, hr, hk, (pointValue_isSome hlen).mpr ⟨hb, (hacc r hr).typed⟩⟩

end RcdServer.Protocol
