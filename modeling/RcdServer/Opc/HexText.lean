import RcdServer.Communicate.Fields
import RcdServer.Opc.Sending

/-!
# The text of a command

`build_hex_command` drops the ASCII white space of a text and reads what is left in pairs. Each pair
goes through the integer parser of the standard library, which takes a plus sign for a leading zero.
-/
namespace RcdServer.Opc

open Communicate (hexBytes hexDigit_cases hexBytes_isSome hex_of_digits isHexDigit signedPairs
  signedPairs_char signedPairs_of_digits)
open Communicate.Stream (hexDigits)
open Lib.Text (isAsciiWhiteSpace)
open Protocol (getSum verifyChecksum)
open Tracking (hexDigit)

/-! ## Digits -/

theorem hexDigit_ascii {c : Char} {d : Nat} (h : hexDigit c = some d) : c.toNat < 128 := by
  by_contra hhigh
  have hval : c.toNat = c.val.toNat := rfl
  unfold hexDigit at h
  split_ifs at h with h1 h2 h3
  · exact absurd (UInt32.le_iff_toNat_le.mp h1.2) (by rw [← hval]; change ¬ c.toNat ≤ 57; omega)
  · exact absurd (UInt32.le_iff_toNat_le.mp h2.2) (by rw [← hval]; change ¬ c.toNat ≤ 70; omega)
  · exact absurd (UInt32.le_iff_toNat_le.mp h3.2) (by rw [← hval]; change ¬ c.toNat ≤ 102; omega)

/-- Both programs read the same digits. -/
theorem hexDigit_eq (c : Char) : Communicate.hexDigit c = (hexDigit c).map UInt8.ofNat := by
  have hall : ∀ n < 128,
      Communicate.hexDigit (Char.ofNat n) = (hexDigit (Char.ofNat n)).map UInt8.ofNat := by
    decide +kernel
  by_cases hlow : c.toNat < 128
  · have := hall c.toNat hlow
    rwa [Char.ofNat_toNat] at this
  · have hnone : hexDigit c = none := by
      cases hdigit : hexDigit c with
      | none => rfl
      | some d => exact absurd (hexDigit_ascii hdigit) hlow
    have hnone' : Communicate.hexDigit c = none := by
      cases hdigit : Communicate.hexDigit c with
      | none => rfl
      | some d => exact absurd (hexDigit_cases hdigit).1.1 hlow
    rw [hnone, hnone']
    rfl

theorem hexPairs_eq {cs : List Char} (h : cs.length % 2 = 0) : hexPairs cs = hexBytes cs := by
  fun_induction hexBytes cs with
  | case1 => rfl
  | case2 => simp at h
  | case3 a b rest ih =>
    have hrest : hexPairs rest = hexBytes rest := ih (by simp at h; omega)
    rw [hexPairs, hrest, Communicate.hexPair, hexDigit_eq a, hexDigit_eq b]
    by_cases hplus : a = '+'
    · cases hexDigit b <;> cases hexBytes rest <;> simp [hplus]
    · cases hexDigit a <;> cases hexDigit b <;> cases hexBytes rest <;>
        simp [hplus, UInt8.ofNat_add, UInt8.ofNat_mul]

/-! ## Renderings -/

/-- `{b:02x}` -/
def lowerHexDigits (b : UInt8) : List Char := (hexDigits b).map Char.toLower

theorem hexPairs_render {render : UInt8 → List Char}
    (hrender : ∀ b, ∃ high low, render b = [high, low] ∧ high ≠ '+' ∧
      hexDigit high = some (b.toNat / 16) ∧ hexDigit low = some (b.toNat % 16))
    (bytes : List UInt8) : hexPairs (bytes.flatMap render) = some bytes := by
  induction bytes with
  | nil => rfl
  | cons b bytes ih =>
    obtain ⟨high, low, hb, hplus, hhigh, hlow⟩ := hrender b
    have hbyte : UInt8.ofNat (16 * (b.toNat / 16) + b.toNat % 16) = b := by
      rw [Nat.div_add_mod, UInt8.ofNat_toNat]
    rw [List.flatMap_cons, hb, List.cons_append, List.cons_append, List.nil_append, hexPairs, ih]
    simp only [hplus, if_false, hhigh, hlow, Option.bind_eq_bind, Option.bind_some, Option.pure_def,
      hbyte]

theorem length_render {render : UInt8 → List Char} (hrender : ∀ b, (render b).length = 2)
    (bytes : List UInt8) : (bytes.flatMap render).length % 2 = 0 := by
  induction bytes with
  | nil => rfl
  | cons b bytes ih =>
    rw [List.flatMap_cons, List.length_append, hrender]
    omega

/-- The digit of a value below sixteen. -/
def hexChar (n : Nat) : Char := Char.ofNat (if n < 10 then 48 + n else 55 + n)

theorem hexChar_digit {n : Nat} (h : n < 16) :
    (hexChar n ≠ '+' ∧ hexDigit (hexChar n) = some n) ∧
      (hexChar n).toLower ≠ '+' ∧ hexDigit (hexChar n).toLower = some n := by
  have hall : ∀ n < 16, (hexChar n ≠ '+' ∧ hexDigit (hexChar n) = some n) ∧
      (hexChar n).toLower ≠ '+' ∧ hexDigit (hexChar n).toLower = some n := by
    decide +kernel
  exact hall n h

theorem hexPairs_upper (bytes : List UInt8) : hexPairs (bytes.flatMap hexDigits) = some bytes := by
  refine hexPairs_render (fun b => ⟨hexChar (b.toNat / 16), hexChar (b.toNat % 16), rfl, ?_⟩) bytes
  have hhigh := hexChar_digit (n := b.toNat / 16) (by have := b.toNat_lt; omega)
  have hlow := hexChar_digit (n := b.toNat % 16) (by omega)
  exact ⟨hhigh.1.1, hhigh.1.2, hlow.1.2⟩

theorem hexPairs_lower (bytes : List UInt8) :
    hexPairs (bytes.flatMap lowerHexDigits) = some bytes := by
  refine hexPairs_render (fun b => ⟨(hexChar (b.toNat / 16)).toLower,
    (hexChar (b.toNat % 16)).toLower, rfl, ?_⟩) bytes
  have hhigh := hexChar_digit (n := b.toNat / 16) (by have := b.toNat_lt; omega)
  have hlow := hexChar_digit (n := b.toNat % 16) (by omega)
  exact ⟨hhigh.2.1, hhigh.2.2, hlow.2.2⟩

/-! ## Commands -/

/-- What `build_hex_command` looks at. -/
def cleaned (hexStr : String) : List Char := hexStr.toList.filter fun c => !isAsciiWhiteSpace c

/-- An even number of digits, at least four. -/
def Digits (cs : List Char) : Prop :=
  cs.length % 2 = 0 ∧ 4 ≤ cs.length ∧ ∀ c ∈ cs, isHexDigit c = true

/-- At least four characters in pairs of which one at least starts with a plus sign. -/
def Signed (cs : List Char) : Prop := 4 ≤ cs.length ∧ signedPairs cs = true ∧ '+' ∈ cs

theorem length_of_signedPairs {cs : List Char} (h : signedPairs cs = true) : cs.length % 2 = 0 := by
  fun_induction signedPairs cs with
  | case1 => rfl
  | case2 => cases h
  | case3 a b rest ih =>
    simp only [Bool.and_eq_true] at h
    have := ih h.2
    simp only [List.length_cons]
    omega

theorem length_hexBytes {cs : List Char} {bytes : List UInt8} (h : hexBytes cs = some bytes) :
    bytes.length = cs.length / 2 := by
  fun_induction hexBytes cs generalizing bytes with
  | case1 =>
    obtain rfl := Option.some.inj h
    rfl
  | case2 => cases h
  | case3 a b rest ih =>
    obtain ⟨byte, -, h⟩ := Option.bind_eq_some_iff.mp h
    obtain ⟨more, hmore, h⟩ := Option.bind_eq_some_iff.mp h
    obtain rfl := Option.some.inj h
    simp only [List.length_cons, ih hmore]
    omega

theorem hexStrToBytes_ok_iff {cs : List Char} {bytes : List UInt8} :
    hexStrToBytes cs = .ok bytes ↔ hexBytes cs = some bytes := by
  constructor
  · intro h
    unfold hexStrToBytes at h
    split_ifs at h with hascii hodd
    rw [hexPairs_eq (by omega)] at h
    cases hbytes : hexBytes cs with
    | none =>
      rw [hbytes] at h
      cases h
    | some found =>
      rw [hbytes] at h
      rw [Except.ok.inj h]
  · intro h
    have hpairs : signedPairs cs = true := by rw [← hexBytes_isSome, h]; rfl
    have heven := length_of_signedPairs hpairs
    have hascii : cs.all (fun c => c.toNat < 128) = true := by
      rw [List.all_eq_true]
      intro c hc
      rcases signedPairs_char hpairs c hc with hdigit | rfl
      · obtain ⟨d, hd⟩ := Option.isSome_iff_exists.mp hdigit
        simpa using (hexDigit_cases hd).1.1
      · decide
    unfold hexStrToBytes
    rw [if_neg (by simp [hascii]), if_neg (by omega), hexPairs_eq heven, h]

/-- A text of at least two pairs is sent if the integer parser takes them. -/
theorem buildHexCommand_ok_iff {hexStr : String} {data : SendData} :
    buildHexCommand hexStr = .ok data ↔ 4 ≤ (cleaned hexStr).length ∧
      ∃ bytes, hexBytes (cleaned hexStr) = some bytes ∧
        data = ⟨(bytes.headD 0).toNat, bytes ++ [getSum bytes]⟩ := by
  unfold buildHexCommand
  rw [show (hexStr.toList.filter fun c => !isAsciiWhiteSpace c) = cleaned hexStr from rfl]
  constructor
  · intro h
    split at h
    · cases h
    · rename_i first second rest hbytes
      have hfound := hexStrToBytes_ok_iff.mp hbytes
      have hlen := length_hexBytes hfound
      obtain rfl := Except.ok.inj h
      simp only [List.length_cons] at hlen
      exact ⟨by omega, _, hfound, rfl⟩
    · cases h
  · rintro ⟨hlong, bytes, hfound, rfl⟩
    have hlen := length_hexBytes hfound
    rw [hexStrToBytes_ok_iff.mpr hfound]
    rcases bytes with _ | ⟨first, _ | ⟨second, rest⟩⟩
    · simp only [List.length_nil] at hlen
      omega
    · simp only [List.length_cons, List.length_nil] at hlen
      omega
    · rfl

theorem getSum_snoc (bytes : List UInt8) : verifyChecksum (bytes ++ [getSum bytes]) = true := by
  simp [verifyChecksum]

/-- The command text is exact: what is sent is what the digits say. -/
structure Exact (hexStr : String) : Prop where
  accepted : (∃ data, buildHexCommand hexStr = .ok data) ↔ Digits (cleaned hexStr)
  frame : ∀ data, buildHexCommand hexStr = .ok data → ∃ bytes,
    bytes.flatMap hexDigits = (cleaned hexStr).map Char.toUpper ∧
      data.command = bytes ++ [getSum bytes] ∧ verifyChecksum data.command = true ∧
      data.command.head?.map UInt8.toNat = some data.deviceId

theorem digits_or_signed {cs : List Char} (hlong : 4 ≤ cs.length) (h : signedPairs cs = true) :
    Digits cs ∨ Signed cs := by
  by_cases hplus : '+' ∈ cs
  · exact .inr ⟨hlong, h, hplus⟩
  · refine .inl ⟨length_of_signedPairs h, hlong, fun c hc => ?_⟩
    refine (signedPairs_char h c hc).resolve_right ?_
    rintro rfl
    exact hplus hc

theorem not_digits_of_signed {cs : List Char} (h : Signed cs) : ¬ Digits cs := fun hdigits =>
  absurd (hdigits.2.2 '+' h.2.2) (by decide)

/-- Signs in the place of leading zeros are the only texts that are sent in error; every byte list is
read back from both of its renderings. -/
theorem buildHexCommand_exact_iff (hexStr : String) :
    (Exact hexStr ↔ ¬ Signed (cleaned hexStr)) ∧
      ∀ bytes, hexStrToBytes (bytes.flatMap hexDigits) = .ok bytes ∧
        hexStrToBytes (bytes.flatMap lowerHexDigits) = .ok bytes := by
  refine ⟨⟨?_, ?_⟩, fun bytes => ⟨?_, ?_⟩⟩
  · intro hexact hsigned
    have hbytes : (hexBytes (cleaned hexStr)).isSome = true := by
      rw [hexBytes_isSome]
      exact hsigned.2.1
    obtain ⟨bytes, hbytes⟩ := Option.isSome_iff_exists.mp hbytes
    have hsent := buildHexCommand_ok_iff.mpr ⟨hsigned.1, bytes, hbytes, rfl⟩
    exact not_digits_of_signed hsigned (hexact.accepted.mp ⟨_, hsent⟩)
  · intro hplain
    have hdigits : ∀ {bytes}, 4 ≤ (cleaned hexStr).length → hexBytes (cleaned hexStr) = some bytes →
        Digits (cleaned hexStr) := by
      intro bytes hlong hbytes
      have hpairs : signedPairs (cleaned hexStr) = true := by rw [← hexBytes_isSome, hbytes]; rfl
      exact (digits_or_signed hlong hpairs).resolve_right hplain
    refine ⟨⟨?_, ?_⟩, ?_⟩
    · rintro ⟨data, hdata⟩
      obtain ⟨hlong, bytes, hbytes, -⟩ := buildHexCommand_ok_iff.mp hdata
      exact hdigits hlong hbytes
    · rintro ⟨heven, hlong, hall⟩
      have hpairs : signedPairs (cleaned hexStr) = true :=
        signedPairs_of_digits (n := (cleaned hexStr).length / 2) (by omega) hall
      rw [← hexBytes_isSome] at hpairs
      obtain ⟨bytes, hbytes⟩ := Option.isSome_iff_exists.mp hpairs
      exact ⟨_, buildHexCommand_ok_iff.mpr ⟨hlong, bytes, hbytes, rfl⟩⟩
    · intro data hdata
      obtain ⟨hlong, bytes, hbytes, rfl⟩ := buildHexCommand_ok_iff.mp hdata
      have hlen := length_hexBytes hbytes
      refine ⟨bytes, hex_of_digits hbytes (hdigits hlong hbytes).2.2, rfl, getSum_snoc bytes, ?_⟩
      match bytes, hlen with
      | [], hlen => simp only [List.length_nil] at hlen; omega
      | first :: rest, _ => rfl
  · rw [hexStrToBytes_ok_iff, ← hexPairs_eq (length_render (fun _ => rfl) bytes)]
    exact hexPairs_upper bytes
  · rw [hexStrToBytes_ok_iff, ← hexPairs_eq (length_render (fun _ => rfl) bytes)]
    exact hexPairs_lower bytes

/-- Two signs with a digit each are sent as two bytes. -/
theorem buildHexCommand_signed :
    buildHexCommand "+1+2" = .ok ⟨1, [1, 2, 3]⟩ ∧ ¬ Digits (cleaned "+1+2") ∧ ¬ Exact "+1+2" := by
  have hsigned : Signed (cleaned "+1+2") := by
    have hcleaned : cleaned "+1+2" = ['+', '1', '+', '2'] := by decide
    rw [hcleaned]
    exact ⟨by decide, by decide, by decide⟩
  have hdigits := not_digits_of_signed hsigned
  have hsent : buildHexCommand "+1+2" = .ok ⟨1, [1, 2, 3]⟩ := by rfl
  exact ⟨hsent, hdigits, fun hexact => hdigits (hexact.accepted.mp ⟨_, hsent⟩)⟩

end RcdServer.Opc
