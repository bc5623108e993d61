import Mathlib.Algebra.GroupWithZero.Nat
import RcdServer.Lib.Chunks
import RcdServer.Lib.Text

/-!
# Unit reports

The payload layouts of `unit_report.rs`: fixed fields at fixed offsets behind the two bytes of
the unit identity. `writeTransmitField` copies one encoded value into a payload; the fields lie
side by side, so a payload is the identity followed by the encoding of every field.
-/
namespace RcdServer.Communicate

open Lib Lib.Chunks

/-! ## Values -/

inductive DataType where
  | boolean | uint32 | float | double | string
  deriving DecidableEq

inductive Value (F32 F64 : Type) where
  | boolean (b : Bool)
  | uint32 (n : UInt32)
  | float (x : F32)
  | double (x : F64)
  | string (s : String)
  deriving DecidableEq

variable {F32 F64 : Type}

def DataType.zero [Zero F32] [Zero F64] : DataType → Value F32 F64
  | .boolean => .boolean false
  | .uint32 => .uint32 0
  | .float => .float 0
  | .double => .double 0
  | .string => .string ""

/-! ## Layouts -/

inductive Kind where
  | unsigned | hex | fire
  deriving DecidableEq

structure Field where
  name : String
  offset : Nat
  len : Nat
  kind : Kind
  deriving DecidableEq

inductive Layout where
  | unit1To9 | unit9To1
  deriving DecidableEq

def unit1Buildings : List String :=
  ["11UBE", "11UBF", "11UBN", "11UBR", "11UBS", "11UBT", "11UBU", "11UBZ", "11UCB", "11UJA",
    "11UJE", "11UJG", "11UJZ", "11UKA", "11UKC", "11UKD", "11UKT", "11UMA", "11UMZ", "11UQA",
    "11UQB", "11USG", "11USP", "11USZ", "11UYZ", "12UBE", "12UBF", "12UBT", "12UBZ", "13UBF",
    "13UBZ", "14UBZ", "1JME34", "1JMF10", "1JMF34"]

def unit9Buildings : List String :=
  ["91UBH", "91UGM", "91UGQ", "91UKT", "91UKZ", "91UYA", "91UZD", "11UGS", "12UGS", "13UGS",
    "91UYZ"]

def fireFields (buildings : List String) (start : Nat) : List Field :=
  buildings.zipIdx.map fun x => ⟨"Buildings." ++ x.1 ++ ".Fire", start + x.2 * 5, 5, .fire⟩

namespace Layout

def fromProtocol (name : String) : Option Layout :=
  if name = "unit1-to9-v1" then some .unit1To9
  else if name = "unit9-to1-v1" then some .unit9To1
  else none

def payloadLen : Layout → Nat
  | .unit1To9 => 1156
  | .unit9To1 => 105

def block : Layout → UInt16
  | .unit1To9 => 1
  | .unit9To1 => 9

def identityField : Field := ⟨"Header.nBlock.z", 0, 2, .unsigned⟩

def fields : Layout → List Field
  | .unit1To9 =>
    [identityField, ⟨"Header.detectorTemp3", 2, 1, .unsigned⟩,
      ⟨"Header.detectorTemp6", 3, 1, .unsigned⟩, ⟨"AKONs.1CYE18GH204.HW", 4, 969, .hex⟩,
      ⟨"PumpStationCtrl", 973, 8, .hex⟩] ++ fireFields unit1Buildings 981
  | .unit9To1 =>
    [identityField, ⟨"AES.SGC85.State", 2, 5, .hex⟩, ⟨"AES.GMM1", 7, 35, .hex⟩,
      ⟨"PumpStationCtrl[0]", 42, 8, .hex⟩] ++ fireFields unit9Buildings 50

def transmitFields (layout : Layout) : List Field :=
  layout.fields.filter fun f => f.name != "Header.nBlock.z"

end Layout

def Field.input (f : Field) : String := "DATA." ++ f.name

def Field.dataType (f : Field) : DataType :=
  match f.kind with
  | .unsigned => .uint32
  | .fire => .uint32
  | .hex => .string

/-- The name and the type of a `PointDefinition`; task and description are not read here. -/
def Layout.transmitDefinitions (layout : Layout) : List (String × DataType) :=
  layout.transmitFields.map fun f => (f.input, f.dataType)

/-- `u16::to_le_bytes`. -/
def toLeBytes (n : UInt16) : List UInt8 := [n.toUInt8, (n >>> 8).toUInt8]

def Layout.emptyTransmitPayload (layout : Layout) : List UInt8 :=
  overwrite (List.replicate layout.payloadLen 0) 0 (toLeBytes layout.block)

def Layout.validatePayload (layout : Layout) (payload : List UInt8) : Except String Unit :=
  if payload.length ≠ layout.payloadLen then
    .error ("expected " ++ toString layout.payloadLen ++ " payload bytes, got " ++
      toString payload.length)
  else if payload.take 2 ≠ toLeBytes layout.block then .error "unexpected unit block identity"
  else .ok ()

/-! ## Encoding of a value -/

def fireStates : List (UInt32 × List UInt8) :=
  [(1, [0x0a, 0x85, 0, 6, 0]), (2, [1, 0x88, 0, 7, 0]), (3, [1, 0xc8, 0, 7, 0]),
    (4, [5, 0x86, 0, 0x0c, 0]), (5, [5, 0xa6, 0, 0x0c, 0]), (6, [6, 0x82, 0, 0x12, 0]),
    (7, [6, 0xc2, 0, 0x12, 0]), (8, [9, 0x85, 0, 4, 0])]

def fireBytes (code : UInt32) : Option (List UInt8) :=
  (fireStates.find? fun x => x.1 == code).map (·.2)

/-- `char::to_digit(16)`. -/
def hexDigit (c : Char) : Option UInt8 :=
  if '0' ≤ c ∧ c ≤ '9' then some (c.toNat - 48).toUInt8
  else if 'a' ≤ c ∧ c ≤ 'f' then some (c.toNat - 87).toUInt8
  else if 'A' ≤ c ∧ c ≤ 'F' then some (c.toNat - 55).toUInt8
  else none

/-- `u8::from_str_radix` of two characters in base 16, which takes a leading plus sign. -/
def hexPair (a b : Char) : Option UInt8 :=
  if a = '+' then hexDigit b
  else do
    let high ← hexDigit a
    let low ← hexDigit b
    some (16 * high + low)

def hexBytes : List Char → Option (List UInt8)
  | [] => some []
  | [_] => none
  | a :: b :: rest => do
    let byte ← hexPair a b
    let bytes ← hexBytes rest
    some (byte :: bytes)

def mismatch : String := "input type, range or exact field length mismatch"

/-- The bytes of a field's value. -/
def Field.encode (f : Field) (value : Value F32 F64) : Except String (List UInt8) :=
  match f.kind, value with
  | .unsigned, .uint32 v => if v ≤ 255 then .ok [v.toUInt8] else .error mismatch
  | .fire, .uint32 v =>
    match fireBytes v with
    | none => .error "Fire 状态必须为 1..8；0 是接收未知状态，不能发送"
    | some bytes => .ok bytes
  | .hex, .string v =>
    if v.utf8ByteSize = f.len * 2 ∧ v.toList.all fun c => decide (c.toNat < 128) then
      match hexBytes v.toList with
      | none => .error "invalid hexadecimal field"
      | some bytes => .ok bytes
    else .error mismatch
  | _, _ => .error mismatch

def Layout.writeTransmitField (layout : Layout) (name : String) (value : Value F32 F64)
    (payload : List UInt8) : Except String (List UInt8) := do
  layout.validatePayload payload
  match layout.transmitFields.find? fun f => name == f.input with
  | none => .error "unknown transmit input"
  | some field =>
    let bytes ← field.encode value
    .ok (overwrite payload field.offset bytes)

/-! ## A payload is the identity and one chunk for each field -/

theorem utf8ByteSize_of_ascii {cs : List Char} (h : ∀ c ∈ cs, c.toNat < 128) :
    (String.ofList cs).utf8ByteSize = cs.length := by
  induction cs with
  | nil => rfl
  | cons c cs ih =>
    obtain ⟨hc, hcs⟩ := List.forall_mem_cons.mp h
    have hone : c.utf8Size = 1 := by
      rw [Char.utf8Size_eq_one_iff, UInt32.le_iff_toNat_le]
      show c.toNat ≤ 127
      omega
    have hcons : String.ofList (c :: cs) = String.singleton c ++ String.ofList cs := by
      rw [← String.toList_inj]
      simp
    rw [hcons, String.utf8ByteSize_append, String.utf8ByteSize_singleton, hone, ih hcs,
      List.length_cons]
    omega

theorem hexBytes_length {cs : List Char} {bytes : List UInt8} (h : hexBytes cs = some bytes) :
    cs.length = 2 * bytes.length := by
  fun_induction hexBytes cs generalizing bytes with
  | case1 =>
    cases h
    rfl
  | case2 => cases h
  | case3 a b rest ih =>
    cases hbyte : hexPair a b with
    | none => simp [hbyte] at h
    | some byte =>
      cases hrest : hexBytes rest with
      | none => simp [hbyte, hrest] at h
      | some more =>
        obtain rfl : byte :: more = bytes := by simpa [hbyte, hrest] using h
        have := ih hrest
        simp only [List.length_cons]
        omega

theorem Field.name_of_input {f g : Field} (h : f.input = g.input) : f.name = g.name := by
  unfold Field.input at h
  rw [← String.toList_inj, String.toList_append, String.toList_append] at h
  exact String.toList_inj.mp (List.append_cancel_left h)

theorem fireFields_names (buildings : List String) (start : Nat) :
    (fireFields buildings start).map Field.name =
      buildings.map fun b => "Buildings." ++ b ++ ".Fire" := by
  unfold fireFields
  rw [List.map_map]
  change buildings.zipIdx.map ((fun b : String => "Buildings." ++ b ++ ".Fire") ∘ Prod.fst) = _
  rw [← List.map_map, List.zipIdx_map_fst]

theorem fireFields_names_nodup {buildings : List String} (h : buildings.Nodup) (start : Nat) :
    ((fireFields buildings start).map Field.name).Nodup := by
  rw [fireFields_names]
  refine h.map fun a b hab => ?_
  rw [← String.toList_inj] at hab
  simp only [String.toList_append] at hab
  exact String.toList_inj.mp (List.append_cancel_left (List.append_cancel_right hab))

theorem head_fireFields_name {buildings : List String} {start : Nat} {name : String}
    (h : name ∈ (fireFields buildings start).map Field.name) : name.toList.head? = some 'B' := by
  rw [fireFields_names] at h
  obtain ⟨b, -, rfl⟩ := List.mem_map.mp h
  simp only [String.toList_append]
  rfl

theorem nodup_names_append {front : List Field} {buildings : List String} (start : Nat)
    (hfront : (front.map Field.name).Nodup)
    (hhead : ∀ name ∈ front.map Field.name, name.toList.head? ≠ some 'B')
    (hbuildings : buildings.Nodup) :
    ((front ++ fireFields buildings start).map Field.name).Nodup := by
  rw [List.map_append]
  refine List.Nodup.append hfront (fireFields_names_nodup hbuildings start) ?_
  intro name hname hfire
  exact hhead name hname (head_fireFields_name hfire)

theorem nodup_unit1Buildings : unit1Buildings.Nodup := by simp [unit1Buildings]

theorem nodup_unit9Buildings : unit9Buildings.Nodup := by simp [unit9Buildings]

namespace Layout

theorem field_len (layout : Layout) : ∀ f ∈ layout.transmitFields,
    (f.kind = .unsigned → f.len = 1) ∧ (f.kind = .fire → f.len = 5) := by
  cases layout <;> decide +kernel

/-- The fields lie side by side behind the identity and fill the payload. -/
theorem field_offset (layout : Layout) : ∀ i < layout.transmitFields.length,
    (layout.transmitFields[i]?.map (·.offset)) =
      some (2 + ((layout.transmitFields.map (·.len)).take i).sum) := by
  cases layout <;> decide +kernel

theorem nodup_names (layout : Layout) : (layout.fields.map Field.name).Nodup := by
  cases layout with
  | unit1To9 => exact nodup_names_append 981 (by decide) (by decide) nodup_unit1Buildings
  | unit9To1 => exact nodup_names_append 50 (by decide) (by decide) nodup_unit9Buildings

theorem input_inj (layout : Layout) : ∀ f ∈ layout.fields, ∀ g ∈ layout.fields,
    f.input = g.input → f = g := by
  intro f hf g hg h
  exact List.inj_on_of_nodup_map layout.nodup_names hf hg (Field.name_of_input h)

theorem nodup_inputs (layout : Layout) : (layout.transmitFields.map Field.input).Nodup := by
  have hfields : layout.fields.Nodup := layout.nodup_names.of_map
  refine (hfields.filter _).map_on fun f hf g hg h => ?_
  exact layout.input_inj f (List.mem_filter.mp hf).1 g (List.mem_filter.mp hg).1 h

end Layout

theorem Field.encode_length {layout : Layout} {f : Field} (hf : f ∈ layout.transmitFields)
    {value : Value F32 F64} {bytes : List UInt8} (h : f.encode value = .ok bytes) :
    bytes.length = f.len := by
  obtain ⟨hunsigned, hfire⟩ := layout.field_len f hf
  unfold Field.encode at h
  split at h
  · rename_i hk
    split_ifs at h
    cases h
    rw [hunsigned hk]
    rfl
  · rename_i v hk
    split at h
    · cases h
    · rename_i bytes' hbytes
      cases h
      rw [hfire hk]
      obtain ⟨x, hx, rfl⟩ := Option.map_eq_some_iff.mp hbytes
      have hall : ∀ x ∈ fireStates, x.2.length = 5 := by decide
      exact hall x (List.mem_of_find?_eq_some hx)
  · rename_i v hk
    split_ifs at h with hv
    split at h
    · cases h
    · rename_i bytes' hbytes
      cases h
      have hlen := hexBytes_length hbytes
      have hascii : (String.ofList v.toList).utf8ByteSize = v.toList.length :=
        utf8ByteSize_of_ascii (by simpa using hv.2)
      rw [String.ofList_toList] at hascii
      omega
  · cases h

/-- A payload made of the identity and one chunk for each transmitted field. -/
structure Assembled (layout : Layout) (chunks : List (List UInt8)) (payload : List UInt8) : Prop where
  payload_eq : payload = toLeBytes layout.block ++ chunks.flatten
  lengths : chunks.map List.length = layout.transmitFields.map (·.len)

theorem Assembled.length_eq {layout : Layout} {chunks : List (List UInt8)} {payload : List UInt8}
    (h : Assembled layout chunks payload) : payload.length = layout.payloadLen := by
  have hsum : 2 + (layout.transmitFields.map (·.len)).sum = layout.payloadLen := by
    cases layout <;> decide +kernel
  rw [h.payload_eq, List.length_append, List.length_flatten, h.lengths, ← hsum]
  rfl

theorem Assembled.valid {layout : Layout} {chunks : List (List UInt8)} {payload : List UInt8}
    (h : Assembled layout chunks payload) : layout.validatePayload payload = .ok () := by
  have htake : payload.take 2 = toLeBytes layout.block := by
    rw [h.payload_eq]
    rfl
  rw [Layout.validatePayload, if_neg (not_not.mpr h.length_eq), if_neg (not_not.mpr htake)]

theorem assembled_empty (layout : Layout) : Assembled layout
    (layout.transmitFields.map fun f => List.replicate f.len 0) layout.emptyTransmitPayload where
  payload_eq := by cases layout <;> decide +kernel
  lengths := by simp

/-- What a successful write does: it exchanges the chunk of the named field. -/
theorem writeTransmitField_ok {layout : Layout} {chunks : List (List UInt8)}
    {payload payload' : List UInt8} (h : Assembled layout chunks payload) {name : String}
    {value : Value F32 F64} (hok : layout.writeTransmitField name value payload = .ok payload') :
    ∃ (i : Nat) (f : Field) (bytes : List UInt8), layout.transmitFields[i]? = some f ∧
      name = f.input ∧ f.encode value = .ok bytes ∧ Assembled layout (chunks.set i bytes) payload' := by
  unfold Layout.writeTransmitField at hok
  rw [h.valid] at hok
  cases hfind : layout.transmitFields.find? fun f => name == f.input with
  | none => simp [hfind, bind, Except.bind] at hok
  | some f =>
    cases hbytes : f.encode value with
    | error e => simp [hfind, hbytes, bind, Except.bind] at hok
    | ok bytes =>
      simp only [hfind, hbytes, bind, Except.bind] at hok
      cases hok
      have hmem := List.mem_of_find?_eq_some hfind
      obtain ⟨i, hi⟩ := List.mem_iff_getElem?.mp hmem
      have hname : name = f.input := by simpa using List.find?_some hfind
      have hlen := Field.encode_length hmem hbytes
      refine ⟨i, f, bytes, hi, hname, hbytes, ?_, ?_⟩
      · -- The offset of the layout is the place of the chunk.
        have hlt : i < layout.transmitFields.length := (List.getElem?_eq_some_iff.mp hi).1
        have hcount : chunks.length = layout.transmitFields.length := by
          simpa using congrArg List.length h.lengths
        have hchunk : chunks[i]? = some chunks[i] := List.getElem?_eq_getElem (hcount ▸ hlt)
        have hchunkLen : chunks[i].length = f.len := by
          have := congrArg (fun l => l[i]?) h.lengths
          simpa [hi, hchunk] using this
        have hoff : f.offset = offset (toLeBytes layout.block :: chunks) (i + 1) := by
          have hoff := layout.field_offset i hlt
          rw [hi, ← h.lengths, ← List.map_take, ← List.length_flatten] at hoff
          rw [offset, List.take_succ_cons, List.flatten_cons, List.length_append]
          exact Option.some.inj hoff
        rw [h.payload_eq, hoff, ← List.flatten_cons,
          overwrite_flatten (by simp) (hlen.trans hchunkLen.symm)]
        rfl
      · rw [List.map_set, hlen, h.lengths]
        apply List.ext_getElem?
        intro j
        by_cases hj : i = j
        · subst hj
          obtain ⟨hlt, hget⟩ := List.getElem?_eq_some_iff.mp hi
          simp [hlt, hget]
        · rw [List.getElem?_set_ne hj]

/-- The encoding of a whole assignment: the identity and the encoded value of every field. -/
def Layout.encode (layout : Layout) (values : String → Value F32 F64) :
    Except String (List UInt8) := do
  let chunks ← layout.transmitFields.mapM fun f => f.encode (values f.input)
  .ok (toLeBytes layout.block ++ chunks.flatten)

end RcdServer.Communicate
