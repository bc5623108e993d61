import RcdServer.Communicate.Stream

/-!
# Fields of a unit report

What `write_transmit_field` writes and `decode` reads. The windows of the fields lie side by side,
so a write is seen through its own field only. Hexadecimal text is read pair by pair with
`u8::from_str_radix`, which also takes a plus sign for the first digit of a pair.
-/
open RcdServer.Communicate.Stream RcdServer.Communicate.Points

namespace RcdServer.Communicate

open Lib.Chunks

variable {F32 F64 : Type}

structure FieldWrite (F32 F64 : Type) where
  name : String
  value : Value F32 F64
  deriving DecidableEq

namespace Layout

/-- `write_transmit_field` in place: the bytes are copied after the last check. -/
def write (layout : Layout) (payload : List UInt8) (w : FieldWrite F32 F64) :
    Except String Unit × List UInt8 :=
  match layout.writeTransmitField w.name w.value payload with
  | .error e => (.error e, payload)
  | .ok payload => (.ok (), payload)

def accepts (layout : Layout) (payload : List UInt8) (w : FieldWrite F32 F64) : Bool :=
  (layout.write payload w).1.isOk

def after (layout : Layout) (payload : List UInt8) (writes : List (FieldWrite F32 F64)) :
    List UInt8 :=
  writes.foldl (fun payload w => (layout.write payload w).2) payload

/-- The value of the last accepted write to the name. -/
def lastWritten (layout : Layout) (payload : List UInt8) (name : String) :
    List (FieldWrite F32 F64) → Option (Value F32 F64)
  | [] => none
  | w :: writes =>
    (layout.lastWritten (layout.write payload w).2 name writes).or
      (if w.name = name ∧ layout.accepts payload w then some w.value else none)

end Layout

/-! ## Texts -/

def isHexDigit (c : Char) : Bool := (hexDigit c).isSome

/-- Pairs of two digits, or of a plus sign and a digit. -/
def signedPairs : List Char → Bool
  | [] => true
  | [_] => false
  | a :: b :: rest => (isHexDigit a || a == '+') && isHexDigit b && signedPairs rest

/-- `2 * len` hexadecimal digits. -/
def Field.Digits (f : Field) (s : String) : Prop :=
  s.toList.length = 2 * f.len ∧ ∀ c ∈ s.toList, isHexDigit c = true

/-- Pairs of which one at least starts with a plus sign. -/
def Field.Signed (f : Field) (s : String) : Prop :=
  s.toList.length = 2 * f.len ∧ signedPairs s.toList = true ∧ '+' ∈ s.toList

def upperHex (s : String) : String := String.ofList (s.toList.map Char.toUpper)

/-- How a value reads after it has been sent. -/
def shown : Value F32 F64 → Value F32 F64
  | .string s => .string (upperHex s)
  | v => v

theorem hexDigit_cases {c : Char} {d : UInt8} (h : hexDigit c = some d) :
    (c.toNat < 128 ∧ c ≠ '+') ∧ d.toNat < 16 ∧
      Char.ofNat (if d.toNat < 10 then 48 + d.toNat else 55 + d.toNat) = c.toUpper := by
  have hall : ∀ n < 128, ∀ d, hexDigit (Char.ofNat n) = some d →
      Char.ofNat n ≠ '+' ∧ d.toNat < 16 ∧
        Char.ofNat (if d.toNat < 10 then 48 + d.toNat else 55 + d.toNat) = (Char.ofNat n).toUpper := by
    decide +kernel
  have hlow : c.toNat < 128 := by
    by_contra hhigh
    have hval : c.toNat = c.val.toNat := rfl
    unfold hexDigit at h
    split_ifs at h with h1 h2 h3
    · exact absurd (UInt32.le_iff_toNat_le.mp h1.2) (by rw [← hval]; change ¬ c.toNat ≤ 57; omega)
    · exact absurd (UInt32.le_iff_toNat_le.mp h2.2) (by rw [← hval]; change ¬ c.toNat ≤ 102; omega)
    · exact absurd (UInt32.le_iff_toNat_le.mp h3.2) (by rw [← hval]; change ¬ c.toNat ≤ 70; omega)
  have hchar := hall c.toNat hlow d
  rw [Char.ofNat_toNat] at hchar
  obtain ⟨hplus, hrest⟩ := hchar h
  exact ⟨⟨hlow, hplus⟩, hrest⟩

theorem hexBytes_isSome (cs : List Char) : (hexBytes cs).isSome = signedPairs cs := by
  fun_induction hexBytes cs with
  | case1 => rfl
  | case2 => rfl
  | case3 a b rest ih =>
    rw [signedPairs, ← ih]
    by_cases hplus : a = '+'
    · cases hb : hexDigit b <;> cases hexBytes rest <;> simp [hexPair, isHexDigit, hplus, hb]
    · cases ha : hexDigit a <;> cases hb : hexDigit b <;> cases hexBytes rest <;>
        simp [hexPair, isHexDigit, hplus, ha, hb]

theorem signedPairs_char {cs : List Char} (h : signedPairs cs = true) :
    ∀ c ∈ cs, isHexDigit c = true ∨ c = '+' := by
  fun_induction signedPairs cs with
  | case1 => simp
  | case2 => cases h
  | case3 a b rest ih =>
    simp only [Bool.and_eq_true, Bool.or_eq_true, beq_iff_eq] at h
    intro c hc
    rcases List.mem_cons.mp hc with rfl | hc
    · exact h.1.1
    rcases List.mem_cons.mp hc with rfl | hc
    · exact .inl h.1.2
    · exact ih h.2 c hc

theorem signedPairs_of_digits {cs : List Char} {n : Nat} (hlen : cs.length = 2 * n)
    (h : ∀ c ∈ cs, isHexDigit c = true) : signedPairs cs = true := by
  fun_induction signedPairs cs generalizing n with
  | case1 => rfl
  | case2 =>
    simp only [List.length_cons, List.length_nil] at hlen
    omega
  | case3 a b rest ih =>
    simp only [List.length_cons] at hlen
    have hrest := ih (n := n - 1) (by omega) fun c hc => h c (by simp [hc])
    rw [h a (by simp), h b (by simp), hrest]
    rfl

/-- The texts that are taken have digits only, or a plus sign in the place of one. -/
theorem Field.signedPairs_iff (f : Field) (s : String) :
    (s.toList.length = 2 * f.len ∧ signedPairs s.toList = true) ↔ f.Digits s ∨ f.Signed s := by
  constructor
  · rintro ⟨hlen, hpairs⟩
    by_cases hplus : '+' ∈ s.toList
    · exact .inr ⟨hlen, hpairs, hplus⟩
    · refine .inl ⟨hlen, fun c hc => (signedPairs_char hpairs c hc).resolve_right ?_⟩
      rintro rfl
      exact hplus hc
  · rintro (⟨hlen, hdigits⟩ | ⟨hlen, hpairs, -⟩)
    · exact ⟨hlen, signedPairs_of_digits hlen hdigits⟩
    · exact ⟨hlen, hpairs⟩

theorem Field.not_digits_of_signed {f : Field} {s : String} (h : f.Signed s) : ¬ f.Digits s := by
  intro hdigits
  have := hdigits.2 '+' h.2.2
  exact absurd this (by decide)

/-- Digits are read back in upper case. -/
theorem hex_of_digits {cs : List Char} {bytes : List UInt8} (h : hexBytes cs = some bytes)
    (hdigits : ∀ c ∈ cs, isHexDigit c = true) :
    bytes.flatMap hexDigits = cs.map Char.toUpper := by
  fun_induction hexBytes cs generalizing bytes with
  | case1 =>
    cases h
    rfl
  | case2 => cases h
  | case3 a b rest ih =>
    obtain ⟨high, ha⟩ := Option.isSome_iff_exists.mp (hdigits a (by simp))
    obtain ⟨low, hb⟩ := Option.isSome_iff_exists.mp (hdigits b (by simp))
    obtain ⟨⟨-, hplus⟩, hhigh, hupperA⟩ := hexDigit_cases ha
    obtain ⟨-, hlow, hupperB⟩ := hexDigit_cases hb
    cases hrest : hexBytes rest with
    | none => simp [hrest, hexPair, hplus, ha, hb] at h
    | some more =>
      obtain rfl : (16 * high + low) :: more = bytes := by
        simpa [hrest, hexPair, hplus, ha, hb] using h
      have hbyte : (16 * high + low).toNat = 16 * high.toNat + low.toNat := by
        rw [UInt8.toNat_add, UInt8.toNat_mul]
        change (16 * high.toNat % 256 + low.toNat) % 256 = _
        omega
      have hdiv : (16 * high.toNat + low.toNat) / 16 = high.toNat := by omega
      have hmod : (16 * high.toNat + low.toNat) % 16 = low.toNat := by omega
      rw [List.flatMap_cons, ih hrest fun c hc => hdigits c (by simp [hc]), List.map_cons,
        List.map_cons, ← hupperA, ← hupperB]
      simp only [hexDigits, hbyte, hdiv, hmod]
      rfl

/-! ## One write -/

theorem fireCode_fireBytes {v : UInt32} {bytes : List UInt8} (h : fireBytes v = some bytes) :
    fireCode bytes = v := by
  have hall : ∀ x ∈ fireStates, fireCode x.2 = x.1 := by decide
  obtain ⟨x, hx, rfl⟩ := Option.map_eq_some_iff.mp h
  rw [hall x (List.mem_of_find?_eq_some hx)]
  simpa using List.find?_some hx

theorem Field.encode_hex {f : Field} (hf : f.kind = .hex) (s : String) :
    (∃ bytes, f.encode (.string s : Value F32 F64) = .ok bytes) ↔ f.Digits s ∨ f.Signed s := by
  rw [← f.signedPairs_iff s]
  have hascii : (∀ c ∈ s.toList, c.toNat < 128) → s.utf8ByteSize = s.toList.length := by
    intro h
    have := utf8ByteSize_of_ascii h
    rwa [String.ofList_toList] at this
  constructor
  · rintro ⟨bytes, h⟩
    unfold Field.encode at h
    simp only [hf] at h
    split_ifs at h with hv
    cases hbytes : hexBytes s.toList with
    | none => simp [hbytes] at h
    | some bytes' =>
      refine ⟨?_, by rw [← hexBytes_isSome, hbytes]; rfl⟩
      rw [← hascii (by simpa using hv.2), hv.1, Nat.mul_comm]
  · rintro ⟨hlen, hpairs⟩
    have hchars : ∀ c ∈ s.toList, c.toNat < 128 := by
      intro c hc
      rcases signedPairs_char hpairs c hc with hdigit | rfl
      · obtain ⟨d, hd⟩ := Option.isSome_iff_exists.mp hdigit
        exact (hexDigit_cases hd).1.1
      · decide
    obtain ⟨bytes, hbytes⟩ := Option.isSome_iff_exists.mp ((hexBytes_isSome s.toList).trans hpairs)
    refine ⟨bytes, ?_⟩
    unfold Field.encode
    simp only [hf, hbytes]
    rw [if_pos ⟨by rw [hascii hchars]; omega, by simpa using hchars⟩]

/-- What was encoded into the window of a field is what is read there. -/
theorem decodeField_encode {layout : Layout} {f : Field} (hf : f ∈ layout.transmitFields)
    {value : Value F32 F64} {bytes payload : List UInt8} (h : f.encode value = .ok bytes)
    (hplain : ∀ s, f.kind = .hex → value = .string s → ¬ f.Signed s)
    (hwindow : window payload f.offset f.len = bytes) :
    decodeField f payload = shown value := by
  change (payload.drop f.offset).take f.len = bytes at hwindow
  have hlen := Field.encode_length hf h
  obtain ⟨hone, -⟩ := layout.field_len f hf
  unfold decodeField
  simp only [hwindow]
  cases hk : f.kind with
  | unsigned =>
    unfold Field.encode at h
    cases value with
    | uint32 v =>
      simp only [hk] at h
      split_ifs at h with hv
      cases h
      have hsmall : v.toNat ≤ 255 := UInt32.le_iff_toNat_le.mp hv
      have hback : v.toUInt8.toUInt32 = v := by
        rw [← UInt32.toNat_inj, UInt8.toNat_toUInt32, UInt32.toNat_toUInt8]
        omega
      simp [shown, hback]
    | _ => simp [hk] at h
  | fire =>
    unfold Field.encode at h
    cases value with
    | uint32 v =>
      simp only [hk] at h
      cases hbytes : fireBytes v with
      | none => simp [hbytes] at h
      | some bytes' =>
        obtain rfl : bytes' = bytes := by simpa [hbytes] using h
        simp [shown, fireCode_fireBytes hbytes]
    | _ => simp [hk] at h
  | hex =>
    cases value with
    | string s =>
      have hdigits := ((Field.encode_hex hk s).mp ⟨bytes, h⟩).resolve_right (hplain s hk rfl)
      unfold Field.encode at h
      simp only [hk] at h
      split_ifs at h
      cases hbytes : hexBytes s.toList with
      | none => simp [hbytes] at h
      | some bytes' =>
        obtain rfl : bytes' = bytes := by simpa [hbytes] using h
        simp only [shown, hex, upperHex, hex_of_digits hbytes hdigits.2]
    | _ =>
      unfold Field.encode at h
      simp [hk] at h

namespace Layout

theorem side_by_side (layout : Layout) :
    SideBySide Field.offset Field.len 0 layout.fields layout.payloadLen := by
  cases layout <;> decide +kernel

theorem behind_identity (layout : Layout) :
    ∀ f ∈ layout.transmitFields, f ∈ layout.fields ∧ 2 ≤ f.offset := by
  intro f hf
  obtain ⟨hmem, hname⟩ := List.mem_filter.mp hf
  refine ⟨hmem, ?_⟩
  have hrest : ∀ g ∈ layout.fields.tail, 2 ≤ g.offset := by cases layout <;> decide +kernel
  have hfields : layout.fields = identityField :: layout.fields.tail := by cases layout <;> rfl
  rw [hfields] at hmem
  obtain rfl | htail := List.mem_cons.mp hmem
  · exact absurd rfl (bne_iff_ne.mp hname)
  · exact hrest f htail

theorem find_input {layout : Layout} {f : Field} (hf : f ∈ layout.transmitFields) :
    (layout.transmitFields.find? fun g => f.input == g.input) = some f := by
  cases hfind : layout.transmitFields.find? fun g => f.input == g.input with
  | none => simpa using List.find?_eq_none.mp hfind f hf
  | some g =>
    have hname : f.input = g.input := by simpa using List.find?_some hfind
    have hg := layout.behind_identity g (List.mem_of_find?_eq_some hfind)
    rw [layout.input_inj f (layout.behind_identity f hf).1 g hg.1 hname]

theorem valid_iff {layout : Layout} {payload : List UInt8} :
    layout.validatePayload payload = .ok () ↔
      payload.length = layout.payloadLen ∧ payload.take 2 = toLeBytes layout.block := by
  unfold validatePayload
  split_ifs with hlen hblock
  · simp [hlen]
  · simp [hblock]
  · simp [not_not.mp hlen, not_not.mp hblock]

/-- What an accepted write does. -/
inductive Writes (layout : Layout) (payload : List UInt8) (w : FieldWrite F32 F64) :
    List UInt8 → Prop where
  | mk (f : Field) (bytes : List UInt8) (mem : f ∈ layout.transmitFields) (name : w.name = f.input)
      (encoded : f.encode w.value = .ok bytes) : Writes layout payload w (overwrite payload f.offset bytes)

theorem write_cases {layout : Layout} {payload : List UInt8}
    (hv : layout.validatePayload payload = .ok ()) (w : FieldWrite F32 F64) :
    (∃ payload', layout.write payload w = (.ok (), payload') ∧ layout.Writes payload w payload') ∨
      ∃ e, layout.write payload w = (.error e, payload) := by
  unfold write writeTransmitField
  rw [hv]
  cases hfind : layout.transmitFields.find? fun f => w.name == f.input with
  | none => exact .inr ⟨_, rfl⟩
  | some f =>
    cases hbytes : f.encode w.value with
    | error e =>
      refine .inr ⟨e, ?_⟩
      simp [hbytes, bind, Except.bind]
    | ok bytes =>
      refine .inl ⟨overwrite payload f.offset bytes, ?_, ?_⟩
      · simp [hbytes, bind, Except.bind]
      · exact .mk f bytes (List.mem_of_find?_eq_some hfind) (by simpa using List.find?_some hfind) hbytes

section Valid

variable {layout : Layout} {payload : List UInt8} (hv : layout.validatePayload payload = .ok ())
include hv

theorem fits {f : Field} (hf : f ∈ layout.transmitFields) {value : Value F32 F64}
    {bytes : List UInt8} (h : f.encode value = .ok bytes) :
    bytes.length = f.len ∧ f.offset + bytes.length ≤ payload.length := by
  have hlen := Field.encode_length hf h
  have hwithin := layout.side_by_side.within.2 f (layout.behind_identity f hf).1
  have hpayload := (valid_iff.mp hv).1
  exact ⟨hlen, by omega⟩

theorem valid_write (w : FieldWrite F32 F64) :
    layout.validatePayload (layout.write payload w).2 = .ok () := by
  rcases write_cases hv w with ⟨payload', h, ⟨f, bytes, hmem, -, hbytes⟩⟩ | ⟨e, h⟩
  · obtain ⟨hlength, hblock⟩ := valid_iff.mp hv
    obtain ⟨hlen, hfits⟩ := fits hv hmem hbytes
    rw [h, valid_iff, length_overwrite hfits, ← hblock]
    have hidentity := (layout.behind_identity f hmem).2
    have hwindow : window (overwrite payload f.offset bytes) 0 2 = window payload 0 2 :=
      window_overwrite_other hfits (by omega)
    exact ⟨hlength, hwindow⟩
  · rw [h]
    exact hv

/-- Whether a write is accepted does not depend on what the payload holds. -/
theorem accepts_iff (w : FieldWrite F32 F64) :
    layout.accepts payload w = true ↔
      ∃ f ∈ layout.transmitFields, w.name = f.input ∧ ∃ bytes, f.encode w.value = .ok bytes := by
  unfold accepts
  rcases write_cases hv w with ⟨payload', h, ⟨f, bytes, hmem, hname, hbytes⟩⟩ | ⟨e, h⟩
  · rw [h]
    exact ⟨fun _ => ⟨f, hmem, hname, bytes, hbytes⟩, fun _ => rfl⟩
  · rw [h]
    refine ⟨fun hok => (by cases hok), ?_⟩
    rintro ⟨f, hmem, hname, bytes, hbytes⟩
    unfold write writeTransmitField at h
    rw [hv, hname, find_input hmem] at h
    simp [hbytes, bind, Except.bind] at h

theorem write_eq {w : FieldWrite F32 F64} {f : Field} {bytes : List UInt8}
    (hmem : f ∈ layout.transmitFields) (hname : w.name = f.input)
    (hbytes : f.encode w.value = .ok bytes) :
    layout.write payload w = (.ok (), overwrite payload f.offset bytes) := by
  unfold write writeTransmitField
  rw [hv, hname, find_input hmem]
  simp [hbytes, bind, Except.bind]

theorem write_rejected {w : FieldWrite F32 F64} (h : layout.accepts payload w = false) :
    (layout.write payload w).2 = payload := by
  rcases write_cases hv w with ⟨payload', hw, -⟩ | ⟨e, hw⟩
  · simp [accepts, hw, Except.isOk, Except.toBool] at h
  · rw [hw]

/-- A write is seen through the window of its own field only. -/
theorem decodeField_write {w : FieldWrite F32 F64} {f : Field} (hf : f ∈ layout.fields)
    (hne : w.name ≠ f.input ∨ layout.accepts payload w = false) :
    (decodeField f (layout.write payload w).2 : Value F32 F64) = decodeField f payload := by
  rcases write_cases hv w with ⟨payload', h, ⟨g, bytes, hmem, hname, hbytes⟩⟩ | ⟨e, h⟩
  · have haccepted : layout.accepts payload w = true :=
      (accepts_iff hv w).mpr ⟨g, hmem, hname, bytes, hbytes⟩
    have hother : w.name ≠ f.input := hne.resolve_right (by simp [haccepted])
    have hgf : g ≠ f := by
      rintro rfl
      exact hother hname
    obtain ⟨hlen, hfits⟩ := fits hv hmem hbytes
    have hapart := layout.side_by_side.apart g (layout.behind_identity g hmem).1 f hf hgf
    have hwindow : window (overwrite payload g.offset bytes) f.offset f.len =
        window payload f.offset f.len := window_overwrite_other hfits (by omega)
    rw [h]
    unfold decodeField
    simp only [window] at hwindow
    simp only [hwindow]
  · rw [h]

theorem write_comm {w w' : FieldWrite F32 F64} (hne : w.name ≠ w'.name) :
    (layout.write (layout.write payload w).2 w').2 =
      (layout.write (layout.write payload w').2 w).2 := by
  have hv₁ := valid_write hv w
  have hv₂ := valid_write hv w'
  rcases write_cases hv w with ⟨p, h, ⟨f, bytes, hmem, hname, hbytes⟩⟩ | ⟨e, h⟩
  · rcases write_cases hv w' with ⟨p', h', ⟨f', bytes', hmem', hname', hbytes'⟩⟩ | ⟨e', h'⟩
    · have hff : f ≠ f' := by
        rintro rfl
        exact hne (hname.trans hname'.symm)
      obtain ⟨hlen, hfits⟩ := fits hv hmem hbytes
      obtain ⟨hlen', hfits'⟩ := fits hv hmem' hbytes'
      have hapart := layout.side_by_side.apart f (layout.behind_identity f hmem).1 f'
        (layout.behind_identity f' hmem').1 hff
      rw [write_eq hv₁ hmem' hname' hbytes', write_eq hv₂ hmem hname hbytes, h, h']
      exact overwrite_comm hfits hfits' (by omega)
    · have hrejected : layout.accepts (layout.write payload w).2 w' = false := by
        rw [Bool.eq_false_iff, ne_eq, accepts_iff hv₁, ← accepts_iff hv]
        simp [accepts, h', Except.isOk, Except.toBool]
      rw [write_rejected hv₁ hrejected, h']
  · have hrejected : layout.accepts (layout.write payload w').2 w = false := by
      rw [Bool.eq_false_iff, ne_eq, accepts_iff hv₂, ← accepts_iff hv]
      simp [accepts, h, Except.isOk, Except.toBool]
    rw [write_rejected hv₂ hrejected, h]

theorem valid_after (writes : List (FieldWrite F32 F64)) :
    layout.validatePayload (layout.after payload writes) = .ok () := by
  induction writes generalizing payload with
  | nil => exact hv
  | cons w writes ih => exact ih (valid_write hv w)

/-- What the report of a payload shows for the field after the writes. -/
theorem decodeField_after {f : Field} (hf : f ∈ layout.fields)
    {writes : List (FieldWrite F32 F64)}
    (hplain : ∀ w ∈ writes, ∀ f ∈ layout.transmitFields, w.name = f.input → f.kind = .hex →
      ∀ s, w.value = .string s → ¬ f.Signed s) :
    decodeField f (layout.after payload writes) =
      match layout.lastWritten payload f.input writes with
      | some v => shown v
      | none => decodeField f payload := by
  induction writes generalizing payload with
  | nil => rfl
  | cons w writes ih =>
    obtain ⟨hw, hwrites⟩ := List.forall_mem_cons.mp hplain
    have hrest := ih (valid_write hv w) hwrites
    change decodeField f (layout.after (layout.write payload w).2 writes) = _
    rw [hrest, lastWritten]
    cases layout.lastWritten (layout.write payload w).2 f.input writes with
    | some v => rfl
    | none =>
      rw [Option.none_or]
      split_ifs with hlast
      · obtain ⟨hname, haccepted⟩ := hlast
        obtain ⟨g, hmem, hname', bytes, hbytes⟩ := (accepts_iff hv w).mp haccepted
        obtain rfl : g = f :=
          layout.input_inj g (layout.behind_identity g hmem).1 f hf (hname'.symm.trans hname)
        obtain ⟨hlen, hfits⟩ := fits hv hmem hbytes
        rw [write_eq hv hmem hname hbytes]
        refine decodeField_encode hmem hbytes (fun s hk hs => hw g hmem hname hk s hs) ?_
        rw [← hlen]
        exact window_overwrite_self hfits
      · have hother : w.name ≠ f.input ∨ layout.accepts payload w = false := by
          simpa [imp_iff_not_or] using hlast
        exact decodeField_write hv hf hother

theorem decodeField_identity :
    (decodeField identityField payload : Value F32 F64) = .uint32 layout.block.toUInt32 := by
  have hblock : (payload.drop 0).take 2 = toLeBytes layout.block := (valid_iff.mp hv).2
  unfold decodeField
  simp only [identityField, hblock]
  refine congrArg Value.uint32 ?_
  cases layout <;> decide +kernel

end Valid

end Layout

/-! ## The laws -/

/-- What the fields of a payload promise for a sequence of writes. -/
structure FieldLaws (layout : Layout) (payload : List UInt8) (writes : List (FieldWrite F32 F64)) :
    Prop where
  partition : (∀ f ∈ layout.fields, f.offset + f.len ≤ payload.length) ∧
    ∀ i < payload.length, ∃! f, f ∈ layout.fields ∧ f.offset ≤ i ∧ i < f.offset + f.len
  confined : ∀ before w rest, writes = before ++ w :: rest →
    layout.accepts (layout.after payload before) w = true →
    ∃ f ∈ layout.transmitFields, w.name = f.input ∧
      (layout.after payload (before ++ [w])).length = payload.length ∧
      ∀ i, ¬ (f.offset ≤ i ∧ i < f.offset + f.len) →
        (layout.after payload (before ++ [w]))[i]? = (layout.after payload before)[i]?
  commutes : ∀ before w w' rest, writes = before ++ w :: w' :: rest → w.name ≠ w'.name →
    layout.after payload (before ++ w :: w' :: rest) = layout.after payload (before ++ w' :: w :: rest)
  unchanged : ∀ before w rest, writes = before ++ w :: rest →
    layout.accepts (layout.after payload before) w = false →
    layout.after payload (before ++ [w]) = layout.after payload before
  hexExact : ∀ before w rest, writes = before ++ w :: rest → ∀ f ∈ layout.transmitFields,
    w.name = f.input → f.kind = .hex →
    (layout.accepts (layout.after payload before) w = true ↔ ∃ s, w.value = .string s ∧ f.Digits s)
  decoded : ∃ points : List (PointUpdate F32 F64),
    decodeReport layout (layout.after payload writes) = .ok points ∧
    points.map (·.name) = layout.fields.map Field.input ∧
    (∀ u ∈ points, u.name = Layout.identityField.input → u.value = .uint32 layout.block.toUInt32) ∧
    ∀ u ∈ points, ∀ v, layout.lastWritten payload u.name writes = some v → u.value = shown v

section Laws

variable {layout : Layout} {payload : List UInt8}

theorem after_append (before rest : List (FieldWrite F32 F64)) :
    layout.after payload (before ++ rest) = layout.after (layout.after payload before) rest :=
  List.foldl_append ..

theorem decodeReport_eq (hv : layout.validatePayload payload = .ok ()) :
    decodeReport layout payload = .ok (layout.fields.map fun f =>
      (⟨f.input, decodeField f payload, .good, ""⟩ : PointUpdate F32 F64)) := by
  unfold decodeReport
  rw [hv]

theorem confined_write (hv : layout.validatePayload payload = .ok ()) {w : FieldWrite F32 F64}
    (h : layout.accepts payload w = true) :
    ∃ f ∈ layout.transmitFields, w.name = f.input ∧
      ∀ i, ¬ (f.offset ≤ i ∧ i < f.offset + f.len) →
        (layout.write payload w).2[i]? = payload[i]? := by
  obtain ⟨f, hmem, hname, bytes, hbytes⟩ := (Layout.accepts_iff hv w).mp h
  obtain ⟨hlen, hfits⟩ := Layout.fits hv hmem hbytes
  refine ⟨f, hmem, hname, fun i hi => ?_⟩
  rw [Layout.write_eq hv hmem hname hbytes, getElem?_overwrite hfits, hlen, if_neg hi]

theorem accepts_hex (hv : layout.validatePayload payload = .ok ()) {w : FieldWrite F32 F64}
    {f : Field} (hmem : f ∈ layout.transmitFields) (hname : w.name = f.input) (hf : f.kind = .hex) :
    layout.accepts payload w = true ↔ ∃ s, w.value = .string s ∧ (f.Digits s ∨ f.Signed s) := by
  have hinput := layout.behind_identity f hmem
  rw [Layout.accepts_iff hv]
  constructor
  · rintro ⟨g, hg, hname', bytes, hbytes⟩
    obtain rfl : g = f := layout.input_inj g (layout.behind_identity g hg).1 f hinput.1
      (hname'.symm.trans hname)
    cases hvalue : w.value with
    | string s =>
      rw [hvalue] at hbytes
      exact ⟨s, rfl, (Field.encode_hex hf s).mp ⟨bytes, hbytes⟩⟩
    | _ =>
      unfold Field.encode at hbytes
      simp [hf, hvalue] at hbytes
  · rintro ⟨s, hvalue, hs⟩
    obtain ⟨bytes, hbytes⟩ := (Field.encode_hex hf s).mpr hs
    exact ⟨f, hmem, hname, bytes, hvalue ▸ hbytes⟩

/-- The laws hold exactly for the sequences in which no plus sign stands for a digit. -/
theorem field_laws (hv : layout.validatePayload payload = .ok ())
    (writes : List (FieldWrite F32 F64)) :
    FieldLaws layout payload writes ↔
      ∀ w ∈ writes, ∀ f ∈ layout.transmitFields, w.name = f.input → f.kind = .hex →
        ∀ s, w.value = .string s → ¬ f.Signed s := by
  have hlength := (Layout.valid_iff.mp hv).1
  constructor
  · intro laws w hw f hmem hname hf s hs hsigned
    obtain ⟨before, rest, hwrites⟩ := List.append_of_mem hw
    have haccepted := (accepts_hex (Layout.valid_after hv before) hmem hname hf).mpr
      ⟨s, hs, .inr hsigned⟩
    obtain ⟨s', hs', hdigits⟩ :=
      (laws.hexExact before w rest hwrites f hmem hname hf).mp haccepted
    obtain rfl : s = s' := by simpa [hs] using hs'
    exact Field.not_digits_of_signed hsigned hdigits
  · intro hplain
    constructor
    · rw [hlength]
      refine ⟨fun f hf => (layout.side_by_side.within.2 f hf).2, fun i hi => ?_⟩
      exact layout.side_by_side.existsUnique (Nat.zero_le i) hi
    · intro before w rest hwrites haccepted
      have hbefore := Layout.valid_after hv before
      obtain ⟨f, hmem, hname, hother⟩ := confined_write hbefore haccepted
      refine ⟨f, hmem, hname, ?_, ?_⟩
      · rw [(Layout.valid_iff.mp (Layout.valid_after hv (before ++ [w]))).1, hlength]
      · rw [after_append]
        exact hother
    · intro before w w' rest hwrites hne
      rw [after_append, after_append]
      change layout.after (layout.write (layout.write _ w).2 w').2 rest = layout.after _ rest
      rw [Layout.write_comm (Layout.valid_after hv before) hne]
    · intro before w rest hwrites hrejected
      rw [after_append]
      exact Layout.write_rejected (Layout.valid_after hv before) hrejected
    · intro before w rest hwrites f hmem hname hf
      have hw : w ∈ writes := by simp [hwrites]
      rw [accepts_hex (Layout.valid_after hv before) hmem hname hf]
      refine exists_congr fun s => and_congr_right fun hs => ?_
      exact or_iff_left (hplain w hw f hmem hname hf s hs)
    · refine ⟨_, decodeReport_eq (Layout.valid_after hv writes), by simp, ?_, ?_⟩
      · intro u hu hname
        obtain ⟨f, hf, rfl⟩ := List.mem_map.mp hu
        have hidentity : Layout.identityField ∈ layout.fields := by cases layout <;> decide +kernel
        obtain rfl : f = Layout.identityField := layout.input_inj f hf _ hidentity hname
        exact Layout.decodeField_identity (Layout.valid_after hv writes)
      · intro u hu v hlast
        obtain ⟨f, hf, rfl⟩ := List.mem_map.mp hu
        have hdecoded := Layout.decodeField_after hv hf hplain
        rw [hlast] at hdecoded
        exact hdecoded

end Laws

namespace Sample

/-- Five pairs, the first of which has a plus sign for its first digit. -/
def signedState : FieldWrite Int Int := ⟨"DATA.AES.SGC85.State", .string "+A00000000"⟩

def stateField : Field := ⟨"AES.SGC85.State", 2, 5, .hex⟩

end Sample

/-- The text is accepted, and read back as another one. -/
theorem signed_pair_accepted :
    Layout.accepts .unit9To1 (Layout.emptyTransmitPayload .unit9To1) Sample.signedState = true ∧
    decodeField Sample.stateField
      (Layout.write .unit9To1 (Layout.emptyTransmitPayload .unit9To1) Sample.signedState).2 =
        (.string "0A00000000" : Value Int Int) ∧
    ¬ FieldLaws .unit9To1 (Layout.emptyTransmitPayload .unit9To1) [Sample.signedState] := by
  have haccepted : Layout.accepts .unit9To1 (Layout.emptyTransmitPayload .unit9To1)
      Sample.signedState = true := by decide +kernel
  refine ⟨haccepted, by decide +kernel, fun laws => ?_⟩
  obtain ⟨s, hs, hdigits⟩ := (laws.hexExact [] Sample.signedState [] rfl Sample.stateField
    (by decide +kernel) rfl rfl).mp haccepted
  obtain rfl : "+A00000000" = s := Value.string.inj hs
  exact absurd (hdigits.2 '+' (by decide)) (by decide)

theorem field_laws_digits :
    FieldLaws .unit9To1 (Layout.emptyTransmitPayload .unit9To1)
      [⟨"DATA.AES.SGC85.State", (.string "0a1B00ff00" : Value Int Int)⟩] := by
  refine (field_laws (by decide +kernel) _).mpr ?_
  intro w hw f hmem hname hf s hs hsigned
  obtain rfl := List.mem_singleton.mp hw
  obtain rfl : "0a1B00ff00" = s := Value.string.inj hs
  exact absurd hsigned.2.2 (by decide)

end RcdServer.Communicate
