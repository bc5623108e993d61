import Mathlib.Algebra.GroupWithZero.Nat
import Mathlib.Data.List.Flatten
import Mathlib.Data.List.Infix
import RcdServer.Lib.Lines

/-!
# Text as bytes

The bytes of characters, what remains of them when the bytes are cut anywhere, and the texts that
`std::str::from_utf8` and `String::from_utf8_lossy` of Rust make of bytes.
-/
namespace RcdServer.Lib.Utf8

abbrev Bytes := List UInt8

/-! ## Characters as bytes -/

def encode (cs : List Char) : Bytes := cs.flatMap String.utf8EncodeChar

/-- `str::len` -/
def size (cs : List Char) : Nat := (cs.map Char.utf8Size).sum

@[simp] theorem encode_nil : encode [] = [] := rfl

theorem encode_cons (c : Char) (cs : List Char) :
    encode (c :: cs) = String.utf8EncodeChar c ++ encode cs := List.flatMap_cons

theorem encode_append (cs ds : List Char) : encode (cs ++ ds) = encode cs ++ encode ds :=
  List.flatMap_append

@[simp] theorem size_nil : size [] = 0 := rfl

theorem size_cons (c : Char) (cs : List Char) : size (c :: cs) = c.utf8Size + size cs := by
  rw [size, List.map_cons, List.sum_cons]
  rfl

theorem size_append (cs ds : List Char) : size (cs ++ ds) = size cs + size ds := by
  rw [size, List.map_append, List.sum_append]
  rfl

@[simp] theorem length_encode (cs : List Char) : (encode cs).length = size cs := by
  induction cs with
  | nil => rfl
  | cons c cs ih =>
    rw [encode_cons, List.length_append, ih, String.length_utf8EncodeChar, size_cons]

theorem length_le_size (cs : List Char) : cs.length ≤ size cs := by
  induction cs with
  | nil => exact Nat.le_refl 0
  | cons c cs ih =>
    have := c.utf8Size_pos
    rw [size_cons, List.length_cons]
    omega

theorem size_pos {cs : List Char} (h : cs ≠ []) : 0 < size cs :=
  Nat.lt_of_lt_of_le (List.length_pos_iff.mpr h) (length_le_size cs)

def IsTail (b : UInt8) : Prop := 0x80 ≤ b.toNat ∧ b.toNat ≤ 0xbf

/-- The first byte of a character of this size. -/
def IsLead (width : Nat) (b : UInt8) : Prop :=
  match width with
  | 1 => b.toNat ≤ 0x7f
  | 2 => 0xc2 ≤ b.toNat ∧ b.toNat ≤ 0xdf
  | 3 => 0xe0 ≤ b.toNat ∧ b.toNat ≤ 0xef
  | _ => 0xf0 ≤ b.toNat ∧ b.toNat ≤ 0xf4

theorem isTail_map (ns : List Nat) :
    ∀ x ∈ ns.map fun n => UInt8.ofNat (n % 0x40 + 0x80), IsTail x := by
  intro x hx
  obtain ⟨n, -, rfl⟩ := List.mem_map.mp hx
  rw [IsTail, UInt8.toNat_ofNat']
  omega

/-- The first byte tells the size, and only it is no tail. -/
theorem encodeChar_shape (c : Char) :
    ∃ b t, String.utf8EncodeChar c = b :: t ∧ IsLead c.utf8Size b ∧ ∀ x ∈ t, IsTail x := by
  have hmax : c.val.toNat ≤ 0x10ffff := by
    have := c.valid
    simp only [UInt32.isValidChar, Nat.isValidChar] at this
    omega
  have hlead : ∀ {w b}, c.utf8Size = w → IsLead w b → IsLead c.utf8Size b := by
    rintro w b rfl h
    exact h
  rw [String.utf8EncodeChar]
  split_ifs with h1 h2 h3
  · refine ⟨_, _, rfl, hlead (Char.utf8Size_eq_one_iff.mpr h1) ?_, by simp⟩
    simp only [IsLead, UInt8.toNat_ofNat']
    omega
  · refine ⟨_, _, rfl, hlead (Char.utf8Size_eq_two_iff.mpr ⟨Nat.not_le.mp h1, h2⟩) ?_,
      isTail_map [c.val.toNat]⟩
    simp only [IsLead, UInt8.toNat_ofNat']
    omega
  · refine ⟨_, _, rfl, hlead (Char.utf8Size_eq_three_iff.mpr ⟨Nat.not_le.mp h2, h3⟩) ?_,
      isTail_map [c.val.toNat / 64, c.val.toNat]⟩
    simp only [IsLead, UInt8.toNat_ofNat']
    omega
  · refine ⟨_, _, rfl, hlead (Char.utf8Size_eq_four_iff.mpr (Nat.not_le.mp h3)) ?_,
      isTail_map [c.val.toNat / 4096, c.val.toNat / 64, c.val.toNat]⟩
    simp only [IsLead, UInt8.toNat_ofNat']
    omega

/-! ## Bytes as characters -/

/-- The character at the front, if there is one. -/
def decodeFirst (bs : Bytes) : Option Char := bs.toByteArray.utf8DecodeChar? 0

theorem decodeFirst_encodeChar (c : Char) (rest : Bytes) :
    decodeFirst (String.utf8EncodeChar c ++ rest) = some c := by
  rw [decodeFirst, List.toByteArray_append]
  exact ByteArray.utf8DecodeChar?_utf8EncodeChar_append

theorem decodeFirst_some {bs : Bytes} {c : Char} (h : decodeFirst bs = some c) :
    ∃ rest, bs = String.utf8EncodeChar c ++ rest := by
  obtain ⟨l, hl⟩ := ByteArray.exists_of_utf8DecodeChar?_eq_some h
  refine ⟨l.data.toList, ?_⟩
  have hlists := congrArg (fun b => b.data.toList) hl
  simpa using hlists

/-- The second byte of a character of three or four bytes that starts with `b`. -/
def isSecond (b s : UInt8) : Bool :=
  if b = 0xe0 then decide (0xa0 ≤ s ∧ s ≤ 0xbf)
  else if b = 0xed then decide (0x80 ≤ s ∧ s ≤ 0x9f)
  else if b = 0xf0 then decide (0x90 ≤ s ∧ s ≤ 0xbf)
  else if b = 0xf4 then decide (0x80 ≤ s ∧ s ≤ 0x8f)
  else decide (0xe1 ≤ b ∧ b ≤ 0xf3 ∧ 0x80 ≤ s ∧ s ≤ 0xbf)

/-- How many bytes at the front of no character stand for one replacement character: as many as
could be the front of one. -/
def brokenLength : Bytes → Nat
  | b :: s :: t :: _ =>
    if isSecond b s then if 0xf0 ≤ b ∧ 0x80 ≤ t ∧ t ≤ 0xbf then 3 else 2 else 1
  | [b, s] => if isSecond b s then 2 else 1
  | _ => 1

/-- `String::from_utf8_lossy` -/
def lossy : Bytes → List Char
  | [] => []
  | b :: bs =>
    match decodeFirst (b :: bs) with
    | some c => c :: lossy (bs.drop (c.utf8Size - 1))
    | none => '\uFFFD' :: lossy (bs.drop (brokenLength (b :: bs) - 1))
  termination_by bs => bs.length

/-- `std::str::from_utf8` -/
def fromUtf8 : Bytes → Option (List Char)
  | [] => some []
  | b :: bs =>
    match decodeFirst (b :: bs) with
    | some c => (fromUtf8 (bs.drop (c.utf8Size - 1))).map (c :: ·)
    | none => none
  termination_by bs => bs.length

theorem drop_encodeChar {b : UInt8} {bs rest : Bytes} {c : Char}
    (h : b :: bs = String.utf8EncodeChar c ++ rest) : bs.drop (c.utf8Size - 1) = rest := by
  obtain ⟨lead, t, hc, -, -⟩ := encodeChar_shape c
  have hlen := String.length_utf8EncodeChar c
  rw [hc, List.length_cons] at hlen
  rw [hc, List.cons_append] at h
  rw [(List.cons.inj h).2, ← hlen, Nat.add_sub_cancel, List.drop_left]

theorem lossy_encodeChar (c : Char) (rest : Bytes) :
    lossy (String.utf8EncodeChar c ++ rest) = c :: lossy rest := by
  cases h : String.utf8EncodeChar c ++ rest with
  | nil =>
    obtain ⟨lead, t, hc, -, -⟩ := encodeChar_shape c
    rw [hc] at h
    cases h
  | cons b bs =>
    rw [lossy, ← h, decodeFirst_encodeChar]
    dsimp only
    rw [drop_encodeChar h.symm]

theorem lossy_encode (cs : List Char) : lossy (encode cs) = cs := by
  induction cs with
  | nil => rw [encode_nil, lossy]
  | cons c cs ih => rw [encode_cons, lossy_encodeChar, ih]

theorem fromUtf8_encodeChar (c : Char) (rest : Bytes) :
    fromUtf8 (String.utf8EncodeChar c ++ rest) = (fromUtf8 rest).map (c :: ·) := by
  cases h : String.utf8EncodeChar c ++ rest with
  | nil =>
    obtain ⟨lead, t, hc, -, -⟩ := encodeChar_shape c
    rw [hc] at h
    cases h
  | cons b bs =>
    rw [fromUtf8, ← h, decodeFirst_encodeChar]
    dsimp only
    rw [drop_encodeChar h.symm]

theorem fromUtf8_encode (cs : List Char) : fromUtf8 (encode cs) = some cs := by
  induction cs with
  | nil => rw [encode_nil, fromUtf8]
  | cons c cs ih =>
    rw [encode_cons, fromUtf8_encodeChar, ih]
    rfl

theorem encode_fromUtf8 {bs : Bytes} {cs : List Char} (h : fromUtf8 bs = some cs) :
    bs = encode cs := by
  induction bs using fromUtf8.induct generalizing cs with
  | case1 =>
    rw [fromUtf8] at h
    rw [← Option.some.inj h]
    rfl
  | case2 b bs c hfirst ih =>
    rw [fromUtf8, hfirst] at h
    obtain ⟨ds, hds, rfl⟩ := Option.map_eq_some_iff.mp h
    obtain ⟨rest, hrest⟩ := decodeFirst_some hfirst
    have hdrop := drop_encodeChar hrest
    rw [encode_cons, ← ih hds, hdrop, hrest]
  | case3 b bs hfirst =>
    rw [fromUtf8, hfirst] at h
    cases h

/-- A byte that is no part of a character takes three. -/
theorem size_lossy_le (bs : Bytes) : size (lossy bs) ≤ 3 * bs.length := by
  induction bs using lossy.induct with
  | case1 => simp [lossy]
  | case2 b bs c hfirst ih =>
    obtain ⟨rest, hrest⟩ := decodeFirst_some hfirst
    have hlen := congrArg List.length hrest
    rw [List.length_append, String.length_utf8EncodeChar] at hlen
    rw [drop_encodeChar hrest] at ih
    rw [lossy, hfirst]
    dsimp only
    rw [drop_encodeChar hrest, size_cons, hlen]
    omega
  | case3 b bs hfirst ih =>
    rw [List.length_drop] at ih
    have hmark : ('\uFFFD' : Char).utf8Size = 3 := rfl
    rw [lossy, hfirst]
    dsimp only
    rw [size_cons, hmark, List.length_cons]
    omega

/-! ## Bytes that are cut -/

/-- The characters in front of the first one that does not fit into `n` bytes. -/
def fit : Nat → List Char → List Char
  | _, [] => []
  | n, c :: cs => if c.utf8Size ≤ n then c :: fit (n - c.utf8Size) cs else []

theorem fit_isPrefix (n : Nat) (cs : List Char) : fit n cs <+: cs := by
  induction cs generalizing n with
  | nil => exact List.prefix_refl []
  | cons c cs ih =>
    rw [fit]
    split_ifs
    · exact (List.prefix_cons_inj c).mpr (ih _)
    · exact List.nil_prefix

theorem size_fit_le (n : Nat) (cs : List Char) : size (fit n cs) ≤ n := by
  induction cs generalizing n with
  | nil => exact Nat.zero_le n
  | cons c cs ih =>
    rw [fit]
    split_ifs with h
    · have := ih (n - c.utf8Size)
      rw [size_cons]
      omega
    · exact Nat.zero_le n

theorem fit_of_size_le {n : Nat} {cs : List Char} (h : size cs ≤ n) : fit n cs = cs := by
  induction cs generalizing n with
  | nil => rfl
  | cons c cs ih =>
    rw [size_cons] at h
    rw [fit, if_pos (by omega), ih (by omega)]

theorem fit_append (cs ds : List Char) (n : Nat) : fit (size cs + n) (cs ++ ds) = cs ++ fit n ds := by
  induction cs with
  | nil =>
    rw [size_nil, Nat.zero_add]
    rfl
  | cons c cs ih =>
    have hrest : size (c :: cs) + n - c.utf8Size = size cs + n := by
      rw [size_cons]
      omega
    rw [List.cons_append, fit, if_pos (by rw [size_cons]; omega), hrest, ih, List.cons_append]

/-- No longer front fits. -/
theorem prefix_fit {n : Nat} {cs q : List Char} (h : q <+: cs) (hsize : size q ≤ n) :
    q <+: fit n cs := by
  obtain ⟨ds, rfl⟩ := h
  obtain ⟨m, rfl⟩ := Nat.exists_eq_add_of_le hsize
  rw [fit_append]
  exact List.prefix_append q _

/-- A character that does not fit has at most four bytes. -/
theorem lt_size_fit {n : Nat} {cs : List Char} (h : fit n cs ≠ cs) : n < size (fit n cs) + 4 := by
  induction cs generalizing n with
  | nil => exact absurd rfl h
  | cons c cs ih =>
    rw [fit] at h ⊢
    split_ifs at h ⊢ with hc
    · have := ih fun heq => h (by rw [heq])
      rw [size_cons]
      omega
    · have := c.utf8Size_le_four
      rw [size_nil]
      omega

/-- What follows the first character that does not fit does not matter. -/
theorem fit_append_of_ne_nil {n : Nat} {front more : List Char} (hmore : more ≠ [])
    (h : fit n (front ++ more) = front) {c : Char} {cs : List Char} (hfirst : more.head? = some c) :
    fit n (front ++ c :: cs) = front := by
  induction front generalizing n with
  | nil =>
    obtain ⟨d, ds, rfl⟩ := List.exists_cons_of_ne_nil hmore
    obtain rfl := Option.some.inj hfirst
    rw [List.nil_append, fit] at h ⊢
    split_ifs at h ⊢
    rfl
  | cons d front ih =>
    rw [List.cons_append, fit] at h ⊢
    split_ifs at h ⊢
    rw [ih (List.cons.inj h).2]

/-- The front of a character, not all of it. -/
def IsPart (part : Bytes) : Prop :=
  ∃ c : Char, part <+: String.utf8EncodeChar c ∧ part.length < c.utf8Size

theorem take_encode (n : Nat) (cs : List Char) :
    ∃ part, (encode cs).take n = encode (fit n cs) ++ part ∧ IsPart part := by
  induction cs generalizing n with
  | nil => exact ⟨[], by simp [fit], 'a', List.nil_prefix, by decide⟩
  | cons c cs ih =>
    rw [fit]
    split_ifs with hc
    · obtain ⟨part, htake, hpart⟩ := ih (n - c.utf8Size)
      obtain ⟨m, rfl⟩ := Nat.exists_eq_add_of_le hc
      refine ⟨part, ?_, hpart⟩
      rw [Nat.add_sub_cancel_left] at htake ⊢
      rw [encode_cons, encode_cons, ← String.length_utf8EncodeChar, List.take_length_add_append,
        htake, List.append_assoc]
    · refine ⟨(String.utf8EncodeChar c).take n, ?_, c, List.take_prefix _ _, ?_⟩
      · rw [encode_cons, List.take_append_of_le_length (by simp; omega)]
        rfl
      · rw [List.length_take, String.length_utf8EncodeChar]
        omega

/-- A part is empty or the first byte of a longer character with some of its tail. -/
theorem IsPart.shape {part : Bytes} (h : IsPart part) :
    part = [] ∨ ∃ b t w, part = b :: t ∧ IsLead w b ∧ (b :: t).length < w ∧ w ≤ 4 ∧
      ∀ x ∈ t, IsTail x := by
  obtain ⟨c, hpre, hlen⟩ := h
  obtain ⟨b, t, hc, hlead, htail⟩ := encodeChar_shape c
  rw [hc] at hpre
  cases part with
  | nil => exact Or.inl rfl
  | cons b' t' =>
    obtain ⟨rfl, htails⟩ := List.cons_prefix_cons.mp hpre
    exact Or.inr ⟨b', t', _, rfl, hlead, hlen, c.utf8Size_le_four,
      fun x hx => htail x (htails.subset hx)⟩

/-! ## Lines -/

theorem newline_notMem_part {part : Bytes} (h : IsPart part) : (10 : UInt8) ∉ part := by
  rcases h.shape with rfl | ⟨b, t, w, rfl, hlead, hlen, hw, htail⟩
  · exact List.not_mem_nil
  · have hten : (10 : UInt8).toNat = 10 := rfl
    have hwide : 2 ≤ w := by
      rw [List.length_cons] at hlen
      omega
    intro hmem
    rcases List.mem_cons.mp hmem with rfl | hmem
    · obtain rfl | rfl | rfl : w = 2 ∨ w = 3 ∨ w = 4 := by omega
      all_goals
        simp only [IsLead, hten] at hlead
        omega
    · have := (htail _ hmem).1
      omega

theorem newline_encodeChar {c : Char} (h : (10 : UInt8) ∈ String.utf8EncodeChar c) : c = '\n' := by
  obtain ⟨b, t, hc, hlead, htail⟩ := encodeChar_shape c
  have hten : (10 : UInt8).toNat = 10 := rfl
  have hlen := String.length_utf8EncodeChar c
  rw [hc] at h hlen
  rcases List.mem_cons.mp h with rfl | hmem
  · have hone : t = [] := by
      rcases c.utf8Size_eq with hw | hw | hw | hw <;> rw [hw] at hlead hlen
      · rw [List.length_cons] at hlen
        exact List.length_eq_zero_iff.mp (by omega)
      all_goals
        simp only [IsLead, hten] at hlead
        omega
    have hdecode := decodeFirst_encodeChar c []
    rw [hc, hone] at hdecode
    have hnewline := decodeFirst_encodeChar '\n' []
    exact Option.some.inj (hdecode.symm.trans hnewline)
  · have := (htail _ hmem).1
    omega

theorem newline_mem_encode {cs : List Char} : (10 : UInt8) ∈ encode cs ↔ '\n' ∈ cs := by
  constructor
  · intro h
    obtain ⟨c, hc, hmem⟩ := List.mem_flatMap.mp h
    rwa [← newline_encodeChar hmem]
  · exact fun h => List.mem_flatMap.mpr ⟨'\n', h, by decide⟩

open Lib.Lines

theorem encode_stored (ls : List (List Char)) :
    encode (stored '\n' ls) = stored 10 (ls.map encode) := by
  induction ls with
  | nil => rfl
  | cons l ls ih =>
    rw [List.map_cons, stored_cons, stored_cons, ← ih, encode_append, encode_cons]
    rfl

theorem stores_encode {content : List Char} {ls : List (List Char)} {rest : List Char}
    (h : Stores '\n' content ls rest) :
    Stores 10 (encode content) (ls.map encode) (encode rest) where
  content_eq := by rw [h.content_eq, encode_append, encode_stored]
  lines_end := by
    intro bytes hbytes
    obtain ⟨l, hl, rfl⟩ := List.mem_map.mp hbytes
    exact fun hmem => h.lines_end l hl (newline_mem_encode.mp hmem)
  rest_open := fun hmem => h.rest_open (newline_mem_encode.mp hmem)

theorem whole_encode (cs : List Char) : whole 10 (encode cs) = encode (whole '\n' cs) := by
  obtain ⟨ls, rest, h⟩ := exists_stores '\n' cs
  rw [h.whole_eq, (stores_encode h).whole_eq, encode_stored]

theorem splitInclusive_encode (cs : List Char) :
    splitInclusive 10 (encode cs) = (splitInclusive '\n' cs).map encode := by
  induction hlines : splitInclusive '\n' cs generalizing cs with
  | nil =>
    rw [splitInclusive_eq_nil.mp hlines]
    rfl
  | cons l ls ih =>
    obtain ⟨hrest, front, hfront, hshape⟩ := splitInclusive_cons hlines
    have hcontent := flatten_splitInclusive '\n' cs
    have hopen : (10 : UInt8) ∉ encode front := fun hmem => hfront (newline_mem_encode.mp hmem)
    rw [hlines, List.flatten_cons] at hcontent
    rw [List.map_cons, ← ih ls.flatten hrest, ← hcontent]
    rcases hshape with rfl | ⟨rfl, hne, rfl⟩
    · have hnewline : encode ['\n'] = [10] := rfl
      rw [List.append_assoc, List.singleton_append, encode_append, encode_append, hnewline,
        encode_cons, ← splitInclusive_line hopen]
      rfl
    · have hbytes : encode l ≠ [] := by
        intro hnil
        have := size_pos hne
        rw [← length_encode, hnil] at this
        exact absurd this (by decide)
      rw [List.flatten_nil, List.append_nil, splitInclusive_open hopen, if_neg hbytes]
      rfl

end RcdServer.Lib.Utf8
