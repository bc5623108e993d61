import Mathlib.Data.List.Chain
import RcdServer.Calc.Rust.Printing

/-!
# Printings as texts

A token list written out with white space anywhere between its tokens, or none, is read back by
the tokenizer as long as no two neighbours run together. In a printing they never do.
-/
namespace RcdServer.Calc.Rust

open Lib.Text

variable {F64 F32 : Type}

/-! ## Characters -/

theorem isAsciiWhiteSpace_cases {c : Char} (h : isAsciiWhiteSpace c = true) :
    c = ' ' ∨ c = '\t' ∨ c = '\n' ∨ c = '\x0c' ∨ c = '\r' := by
  simp only [isAsciiWhiteSpace, Bool.or_eq_true, beq_iff_eq] at h
  rcases h with (((h | h) | h) | h) | h
  · exact .inl (Char.toNat_inj.mp h)
  · exact .inr (.inl (Char.toNat_inj.mp h))
  · exact .inr (.inr (.inl (Char.toNat_inj.mp h)))
  · exact .inr (.inr (.inr (.inl (Char.toNat_inj.mp h))))
  · exact .inr (.inr (.inr (.inr (Char.toNat_inj.mp h))))

/-- The first character of an identifier that does not start with a digit. -/
def startsIdent (c : Char) : Bool := isAsciiAlphabetic c || c == '_'

theorem isIdentChar_eq (c : Char) : isIdentChar c = (startsIdent c || isAsciiDigit c) := by
  simp only [isIdentChar, startsIdent]
  cases isAsciiAlphabetic c <;> cases isAsciiDigit c <;> cases c == '_' <;> rfl

theorem startsIdent_not_digit {c : Char} (h : startsIdent c = true) : isAsciiDigit c = false := by
  simp only [startsIdent, isAsciiAlphabetic, isAsciiDigit, Bool.or_eq_true, decide_eq_true_eq,
    beq_iff_eq, decide_eq_false_iff_not, Char.le_def, UInt32.le_iff_toNat_le] at h ⊢
  rcases h with (h | h) | rfl
  · have hlow : 'a'.val.toNat = 97 := rfl
    have hnine : '9'.val.toNat = 57 := rfl
    omega
  · have hlow : 'A'.val.toNat = 65 := rfl
    have hnine : '9'.val.toNat = 57 := rfl
    omega
  · decide

theorem startsIdent_ne_point {c : Char} (h : startsIdent c = true) : c ≠ '.' := by
  rintro rfl
  revert h
  decide

theorem isAsciiDigit_toDigits (n : Nat) : ∀ c ∈ Nat.toDigits 10 n, isAsciiDigit c = true := by
  intro c hc
  have hdigit := Nat.isDigit_of_mem_toDigits (by decide) (by decide) hc
  simpa [Char.isDigit, isAsciiDigit, Char.le_def] using hdigit

/-! ## Numbers -/

theorem parseDigits_append (max acc : Nat) (l m : List Char) :
    parseDigits max acc (l ++ m) = parseDigits max acc l >>= fun acc => parseDigits max acc m := by
  induction l generalizing acc with
  | nil => rfl
  | cons c l ih =>
    rw [List.cons_append, parseDigits, parseDigits]
    cases digit? c with
    | none => rfl
    | some d =>
      by_cases hle : acc * 10 + d ≤ max
      · simp only [hle, if_true]
        exact ih _
      · simp only [hle, if_false]
        rfl

theorem digit?_digitChar {d : Nat} (h : d < 10) : digit? d.digitChar = some d := by
  revert d
  decide

/-- The decimal digits of a number within the bounds are read as the number. -/
theorem parseDigits_toDigits {max n : Nat} (h : n ≤ max) :
    parseDigits max 0 (Nat.toDigits 10 n) = .ok n := by
  induction n using Nat.strong_induction_on with
  | _ n ih =>
    have hlast : ∀ acc d, d < 10 → acc * 10 + d = n →
        parseDigits max acc [d.digitChar] = .ok n := by
      intro acc d hd hn
      rw [parseDigits, digit?_digitChar hd]
      simp only [hn, h, if_true]
      rfl
    rw [Nat.toDigits_eq_if (by decide)]
    split_ifs with hn
    · exact hlast 0 n hn (by omega)
    · rw [parseDigits_append, ih (n / 10) (by omega) (by omega)]
      exact hlast (n / 10) (n % 10) (by omega) (by omega)

theorem parseUnsigned_toDigits {max n : Nat} (h : n ≤ max) :
    parseUnsigned max (String.ofList (Nat.toDigits 10 n)) = .ok n := by
  have hplus : '+' ∉ Nat.toDigits 10 n := by
    intro hmem
    have := isAsciiDigit_toDigits n _ hmem
    revert this
    decide
  rw [parseUnsigned, String.toList_ofList]
  split
  · rename_i hnil
    exact absurd hnil Nat.toDigits_ne_nil
  · rename_i hsign
    simp [hsign] at hplus
  · rename_i hsign
    simp [hsign] at hplus
  · exact parseDigits_toDigits h

/-- A run of digits with at most one point is taken as a whole. -/
theorem numberSpan_append (hasDot : Bool) {number rest : List Char}
    (hnumber : ∀ c ∈ number, isAsciiDigit c = true ∨ c = '.')
    (hpoints : number.count '.' + hasDot.toNat ≤ 1)
    (hrest : ∀ c, rest.head? = some c → isAsciiDigit c = false ∧ c ≠ '.') :
    numberSpan hasDot (number ++ rest) = (number.length, hasDot || decide ('.' ∈ number)) := by
  induction number generalizing hasDot with
  | nil =>
    cases rest with
    | nil => simp [numberSpan]
    | cons c rest =>
      obtain ⟨hdigit, hpoint⟩ := hrest c rfl
      have hne : (c == '.') = false := by simpa using hpoint
      simp [numberSpan, hdigit, hne]
  | cons c number ih =>
    obtain ⟨hc, hmore⟩ := List.forall_mem_cons.mp hnumber
    have hclass : (isAsciiDigit c || c == '.') = true := by
      rcases hc with hc | rfl
      · simp [hc]
      · decide
    rw [List.cons_append, numberSpan, if_pos hclass]
    by_cases hpoint : c = '.'
    · subst hpoint
      simp only [List.count_cons_self] at hpoints
      have hfirst : hasDot = false := by
        cases hasDot with
        | false => rfl
        | true => simp at hpoints
      subst hfirst
      have hnone : '.' ∉ number := by
        intro hmem
        have := List.count_pos_iff.mpr hmem
        simp at hpoints
        omega
      have hflag : (false || '.' == '.') = true := by decide
      rw [hflag, ih true hmore (by simpa using hpoints)]
      simp
    · have hne : (c == '.') = false := by simpa using hpoint
      have hsame : (hasDot || c == '.') = hasDot := by rw [hne, Bool.or_false]
      rw [hsame, ih hasDot hmore (by simpa [List.count_cons, hne] using hpoints)]
      simp [hne, Ne.symm hpoint]

theorem identSpan_append {l rest : List Char} (hl : ∀ c ∈ l, isIdentChar c = true)
    (hrest : ∀ c, rest.head? = some c → isIdentChar c = false) :
    identSpan (l ++ rest) = l.length := by
  have hstop : rest.takeWhile isIdentChar = [] := by
    cases rest with
    | nil => rfl
    | cons c rest => simp [hrest c rfl]
  rw [identSpan, List.takeWhile_append_of_pos hl, hstop, List.append_nil]

/-! ## Spellings -/

/-- Names as the language has them, also ones that start like a number: `9CYE91GH201_SL1`. -/
def Identifier (name : String) : Prop :=
  ∃ number c tail, name.toList = number ++ c :: tail ∧
    (∀ d ∈ number, isAsciiDigit d = true ∨ d = '.') ∧ number.count '.' ≤ 1 ∧ number ≠ ['.'] ∧
    startsIdent c = true ∧ ∀ d ∈ tail, isIdentChar d = true

/-- Numbers with a point are left out: their text belongs to the floating point primitives. -/
def spell : Token F64 → List Char
  | .int n => Nat.toDigits 10 n.toNatClampNeg
  | .ident name => name.toList
  | .plus => ['+']
  | .minus => ['-']
  | .star => ['*']
  | .slash => ['/']
  | .percent => ['%']
  | .amp => ['&']
  | .pipe => ['|']
  | .caret => ['^']
  | .tilde => ['~']
  | .shiftLeft => ['<', '<']
  | .shiftRight => ['>', '>']
  | .and => ['&', '&']
  | .or => ['|', '|']
  | .bang => ['!']
  | .eq => ['=', '=']
  | .notEq => ['!', '=']
  | .lt => ['<']
  | .gt => ['>']
  | .ltEq => ['<', '=']
  | .gtEq => ['>', '=']
  | .lparen => ['(']
  | .rparen => [')']
  | .comma => [',']
  | .float _ => []
  | .eof => []

def Spellable : Token F64 → Prop
  | .int n => 0 ≤ n
  | .ident name => Identifier name
  | .float _ => False
  | .eof => False
  | _ => True

/-- `c` right behind the token does not become part of it. -/
def clearOf : Token F64 → Char → Bool
  | .int _, c => !isIdentChar c && c != '.'
  | .ident _, c => !isIdentChar c && c != '.'
  | .amp, c => c != '&'
  | .pipe, c => c != '|'
  | .bang, c => c != '='
  | .lt, c => c != '=' && c != '<'
  | .gt, c => c != '=' && c != '>'
  | _, _ => true

/-- The tokens may stand side by side without a space. -/
def Apart (t u : Token F64) : Prop := ∀ c, (spell u).head? = some c → clearOf t c = true

/-- The tokens written out, with white space around them. -/
inductive Spaced : List (Token F64) → List Char → Prop
  | nil {space : List Char} (hspace : ∀ c ∈ space, isAsciiWhiteSpace c = true) : Spaced [] space
  | cons {space chars : List Char} {t : Token F64} {ts : List (Token F64)}
      (hspace : ∀ c ∈ space, isAsciiWhiteSpace c = true) (hts : Spaced ts chars) :
      Spaced (t :: ts) (space ++ (spell t ++ chars))

theorem Identifier.ne_nil {name : String} (h : Identifier name) : name.toList ≠ [] := by
  obtain ⟨number, c, tail, heq, -⟩ := h
  simp [heq]

theorem spell_ne_nil {t : Token F64} (h : Spellable t) : spell t ≠ [] := by
  cases t with
  | int n => exact Nat.toDigits_ne_nil
  | ident name => exact Identifier.ne_nil h
  | float x => exact h.elim
  | eof => exact h.elim
  | _ => exact List.cons_ne_nil _ _

theorem clearOf_white {t : Token F64} {c : Char} (h : isAsciiWhiteSpace c = true) :
    clearOf t c = true := by
  rcases isAsciiWhiteSpace_cases h with rfl | rfl | rfl | rfl | rfl <;> cases t <;> rfl

theorem spell_not_white {t : Token F64} (h : Spellable t) {c : Char} {cs : List Char}
    (hspell : spell t = c :: cs) : isAsciiWhiteSpace c = false := by
  have hchar : isIdentChar c = true ∨ c = '.' → isAsciiWhiteSpace c = false := by
    intro hc
    by_contra hwhite
    rw [Bool.not_eq_false] at hwhite
    rcases isAsciiWhiteSpace_cases hwhite with rfl | rfl | rfl | rfl | rfl <;>
      revert hc <;> decide
  cases t with
  | int n =>
    have hdigit := isAsciiDigit_toDigits n.toNatClampNeg c (by
      show c ∈ spell (.int n : Token F64)
      rw [hspell]
      exact List.mem_cons_self)
    exact hchar (.inl (by simp [isIdentChar, hdigit]))
  | ident name =>
    obtain ⟨number, d, tail, heq, hnumber, -, -, hd, -⟩ := h
    have hname : number ++ d :: tail = c :: cs := heq.symm.trans hspell
    cases number with
    | nil =>
      obtain rfl : d = c := (List.cons.inj hname).1
      exact hchar (.inl (by rw [isIdentChar_eq, hd, Bool.true_or]))
    | cons e number =>
      obtain rfl : e = c := (List.cons.inj hname).1
      rcases hnumber e List.mem_cons_self with hdigit | hpoint
      · exact hchar (.inl (by simp [isIdentChar, hdigit]))
      · exact hchar (.inr hpoint)
  | float x => exact h.elim
  | eof => exact h.elim
  | _ =>
    cases hspell
    decide

/-! ## Tokens are read back -/

section

variable [FloatOps F64 F32]

theorem numberToken_int {n : Int64} (hn : 0 ≤ n) {rest : List Char}
    (hrest : ∀ c, rest.head? = some c → isIdentChar c = false ∧ c ≠ '.') :
    numberToken (Nat.toDigits 10 n.toNatClampNeg ++ rest) =
      .ok ((.int n : Token F64), (Nat.toDigits 10 n.toNatClampNeg).length) := by
  have hdigits := isAsciiDigit_toDigits n.toNatClampNeg
  have hpoint : '.' ∉ Nat.toDigits 10 n.toNatClampNeg := by
    intro hmem
    have := hdigits '.' hmem
    revert this
    decide
  have hspan := numberSpan_append false (fun c hc => .inl (hdigits c hc))
    (by simp [List.count_eq_zero_of_not_mem hpoint])
    (fun c hc => by
      obtain ⟨hident, hne⟩ := hrest c hc
      rw [isIdentChar_eq, Bool.or_eq_false_iff] at hident
      exact ⟨hident.2, hne⟩ : ∀ c, rest.head? = some c → isAsciiDigit c = false ∧ c ≠ '.')
  have hend : (rest.head?.any fun c => isAsciiAlphabetic c || c == '_') = false := by
    cases rest with
    | nil => rfl
    | cons c rest =>
      have hident := (hrest c rfl).1
      rw [isIdentChar_eq, Bool.or_eq_false_iff] at hident
      exact hident.1
  have hmax : n.toNatClampNeg ≤ 2 ^ 63 - 1 := Nat.le_pred_of_lt n.toNatClampNeg_lt
  rw [numberToken, hspan]
  simp only [List.drop_left, hend, Bool.false_eq_true, if_false, List.take_left, hpoint,
    decide_false, Bool.or_self, parseUnsigned_toDigits hmax, Int64.ofNat_toNatClampNeg n hn]

theorem numberToken_ident {name : String} {number : List Char} {c : Char} {tail rest : List Char}
    (hname : name.toList = number ++ c :: tail)
    (hnumber : ∀ d ∈ number, isAsciiDigit d = true ∨ d = '.') (hpoints : number.count '.' ≤ 1)
    (hc : startsIdent c = true) (htail : ∀ d ∈ tail, isIdentChar d = true)
    (hrest : ∀ d, rest.head? = some d → isIdentChar d = false) :
    numberToken (name.toList ++ rest) = .ok ((.ident name : Token F64), name.toList.length) := by
  have hall : ∀ d ∈ c :: tail, isIdentChar d = true := by
    intro d hd
    rcases List.mem_cons.mp hd with rfl | hd
    · rw [isIdentChar_eq, hc, Bool.true_or]
    · exact htail d hd
  have hspan := numberSpan_append false hnumber (by simpa using hpoints)
    (fun d hd => by
      obtain rfl : c = d := by simpa using hd
      exact ⟨startsIdent_not_digit hc, startsIdent_ne_point hc⟩ :
      ∀ d, (c :: (tail ++ rest)).head? = some d → isAsciiDigit d = false ∧ d ≠ '.')
  have hident : identSpan (c :: (tail ++ rest)) = (c :: tail).length :=
    identSpan_append hall hrest
  have hlong : name.toList ++ rest = number ++ c :: (tail ++ rest) := by simp [hname]
  have hwidth : number.length + (c :: tail).length = name.toList.length := by simp [hname]
  rw [numberToken, hlong, hspan]
  simp only [List.drop_left, List.head?_cons, Option.any_some]
  have hword : (isAsciiAlphabetic c || c == '_') = true := hc
  rw [if_pos hword, hident, hwidth, ← hlong, List.take_left, String.ofList_toList]

/-- Behind every token stands the next one, whatever follows that does not run into it. -/
theorem nextToken_spell {t : Token F64} (h : Spellable t) {c : Char} {cs rest : List Char}
    (hspell : spell t = c :: cs) (hrest : ∀ d, rest.head? = some d → clearOf t d = true) (pos : Nat) :
    nextToken pos c (cs ++ rest) = .ok (t, (c :: cs).length) := by
  have hdouble : ∀ e : Char, ∀ us : List Char, (∀ d, us.head? = some d → (d != e) = true) →
      us.head? ≠ some e := by
    intro e us hus hhead
    have := hus e hhead
    simp at this
  cases t with
  | int n =>
    have hdigit := isAsciiDigit_toDigits n.toNatClampNeg c (by
      show c ∈ spell (.int n : Token F64)
      rw [hspell]
      exact List.mem_cons_self)
    have hnumber : numberToken (c :: (cs ++ rest)) = .ok ((.int n : Token F64), (c :: cs).length) := by
      rw [← List.cons_append, ← hspell]
      exact numberToken_int h fun d hd => by simpa [clearOf] using hrest d hd
    rw [nextToken, if_pos (by simp [hdigit])]
    exact hnumber
  | ident name =>
    have hclear : ∀ d, rest.head? = some d → isIdentChar d = false := by
      intro d hd
      have := hrest d hd
      simp only [clearOf, Bool.and_eq_true, Bool.not_eq_true'] at this
      exact this.1
    obtain ⟨number, d, tail, heq, hnumber, hpoints, hlone, hd, htail⟩ := h
    have hlong : c :: (cs ++ rest) = name.toList ++ rest := by
      rw [← List.cons_append, ← hspell]
      rfl
    have hlength : (c :: cs).length = name.toList.length := by
      rw [← hspell]
      rfl
    have hname : number ++ d :: tail = c :: cs := heq.symm.trans hspell
    cases number with
    | nil =>
      obtain ⟨rfl, rfl⟩ := List.cons.inj hname
      have hfirst : (isAsciiDigit d || (d == '.' && (tail ++ rest).head?.any isAsciiDigit)) = false := by
        have hne : (d == '.') = false := by simpa using startsIdent_ne_point hd
        rw [startsIdent_not_digit hd, hne]
        rfl
      have hall : ∀ e ∈ d :: tail, isIdentChar e = true := by
        intro e he
        rcases List.mem_cons.mp he with rfl | he
        · rw [isIdentChar_eq, hd, Bool.true_or]
        · exact htail e he
      have hspan : identSpan (d :: (tail ++ rest)) = (d :: tail).length :=
        identSpan_append hall hclear
      have hword : (isAsciiAlphabetic d || d == '_') = true := hd
      rw [hlong, hlength] at hspan
      rw [nextToken, hfirst, if_neg (by simp), if_pos hword]
      simp only [hlong, hspan, hlength, List.take_left, String.ofList_toList]
    | cons e number =>
      obtain ⟨rfl, hcs⟩ := List.cons.inj hname
      have hfirst : (isAsciiDigit e || (e == '.' && (cs ++ rest).head?.any isAsciiDigit)) = true := by
        rcases hnumber e List.mem_cons_self with hdigit | rfl
        · simp [hdigit]
        · cases number with
          | nil => exact absurd rfl hlone
          | cons f number =>
            have hf : isAsciiDigit f = true := by
              rcases hnumber f (by simp) with hf | rfl
              · exact hf
              · simp at hpoints
            rw [← hcs]
            simp [hf]
      rw [nextToken, if_pos hfirst, hlong, hlength]
      exact numberToken_ident heq hnumber hpoints hd htail hclear
  | float x => exact h.elim
  | eof => exact h.elim
  | amp =>
    cases hspell
    have hne := hdouble '&' rest hrest
    show (if rest.head? = some '&' then _ else _) = _
    rw [if_neg hne]
    rfl
  | pipe =>
    cases hspell
    have hne := hdouble '|' rest hrest
    show (if rest.head? = some '|' then _ else _) = _
    rw [if_neg hne]
    rfl
  | bang =>
    cases hspell
    have hne := hdouble '=' rest hrest
    show (if rest.head? = some '=' then _ else _) = _
    rw [if_neg hne]
    rfl
  | lt =>
    cases hspell
    have heq := hdouble '=' rest fun d hd => (Bool.and_eq_true _ _ ▸ hrest d hd).1
    have hne := hdouble '<' rest fun d hd => (Bool.and_eq_true _ _ ▸ hrest d hd).2
    show (if rest.head? = some '=' then _ else if rest.head? = some '<' then _ else _) = _
    rw [if_neg heq, if_neg hne]
    rfl
  | gt =>
    cases hspell
    have heq := hdouble '=' rest fun d hd => (Bool.and_eq_true _ _ ▸ hrest d hd).1
    have hne := hdouble '>' rest fun d hd => (Bool.and_eq_true _ _ ▸ hrest d hd).2
    show (if rest.head? = some '=' then _ else if rest.head? = some '>' then _ else _) = _
    rw [if_neg heq, if_neg hne]
    rfl
  | _ =>
    cases hspell
    rfl

theorem tokenizeFrom_skip (pos : Nat) (skipped chars : List Char) :
    (tokenizeFrom pos skipped.length (skipped ++ chars) : Parse F64 (List (Token F64))) =
      tokenizeFrom (pos + skipped.length) 0 chars := by
  induction skipped generalizing pos with
  | nil => rfl
  | cons c skipped ih =>
    show tokenizeFrom (pos + 1) skipped.length (skipped ++ chars) = _
    rw [ih, List.length_cons]
    congr 1
    omega

theorem tokenizeFrom_space (pos : Nat) {space : List Char}
    (h : ∀ c ∈ space, isAsciiWhiteSpace c = true) (chars : List Char) :
    (tokenizeFrom pos 0 (space ++ chars) : Parse F64 (List (Token F64))) =
      tokenizeFrom (pos + space.length) 0 chars := by
  induction space generalizing pos with
  | nil => rfl
  | cons c space ih =>
    obtain ⟨hc, hspace⟩ := List.forall_mem_cons.mp h
    rw [List.cons_append, tokenizeFrom, if_pos hc, ih _ hspace, List.length_cons]
    congr 1
    omega

/-- What stands first in a spaced text: a space or the start of the first token. -/
theorem Spaced.head {ts : List (Token F64)} {chars : List Char} (h : Spaced ts chars)
    (hspell : ∀ t ∈ ts, Spellable t) {c : Char} (hc : chars.head? = some c) :
    isAsciiWhiteSpace c = true ∨ ∃ t ∈ ts.head?, (spell t).head? = some c := by
  cases h with
  | nil hspace =>
    left
    exact hspace c (List.mem_of_mem_head? hc)
  | @cons space chars t ts hspace _ =>
    cases space with
    | nil =>
      right
      refine ⟨t, rfl, ?_⟩
      have hne := spell_ne_nil (hspell t List.mem_cons_self)
      rwa [List.nil_append, List.head?_append_of_ne_nil _ hne] at hc
    | cons d space =>
      left
      obtain rfl : d = c := by simpa using hc
      exact hspace d List.mem_cons_self

/-- Tokens that keep apart are read back from every spacing. -/
theorem tokenizeFrom_spaced {ts : List (Token F64)} {chars : List Char} (h : Spaced ts chars)
    (hspell : ∀ t ∈ ts, Spellable t) (hapart : ts.IsChain Apart) (pos : Nat) :
    tokenizeFrom pos 0 chars = .ok (ts ++ [.eof]) := by
  induction h generalizing pos with
  | nil hspace =>
    have hread : (tokenizeFrom pos 0 _ : Parse F64 (List (Token F64))) = _ :=
      tokenizeFrom_space pos hspace []
    rw [List.append_nil] at hread
    rw [hread]
    rfl
  | @cons space chars t ts hspace hts ih =>
    obtain ⟨ht, hmore⟩ := List.forall_mem_cons.mp hspell
    obtain ⟨hfirst, hchain⟩ := List.isChain_cons.mp hapart
    rw [tokenizeFrom_space pos hspace]
    obtain ⟨c, cs, hcs⟩ := List.exists_cons_of_ne_nil (spell_ne_nil ht)
    have hclear : ∀ d, chars.head? = some d → clearOf t d = true := by
      intro d hd
      rcases hts.head hmore hd with hwhite | ⟨u, hu, hud⟩
      · exact clearOf_white hwhite
      · exact hfirst u hu d hud
    have hnext := nextToken_spell ht hcs hclear (pos + space.length)
    rw [hcs, List.cons_append, tokenizeFrom, if_neg (by simp [spell_not_white ht hcs]), hnext]
    show (tokenizeFrom (pos + space.length + 1) ((c :: cs).length - 1) (cs ++ chars) >>= _) = _
    rw [List.length_cons, Nat.add_sub_cancel, tokenizeFrom_skip, ih hmore hchain]
    rfl

/-- The end marker comes from the end of the text only. -/
theorem nextToken_not_eof {pos : Nat} {c : Char} {rest : List Char} {t : Token F64} {width : Nat}
    (h : nextToken pos c rest = .ok (t, width)) : isEof t = false := by
  unfold nextToken at h
  split_ifs at h
  · unfold numberToken at h
    simp only at h
    split_ifs at h
    · cases h
      rfl
    · split at h
      · cases h
        rfl
      · cases h
    · split at h
      · cases h
        rfl
      · cases h
  · cases h
    rfl
  · unfold operatorToken at h
    split at h
    all_goals
      try split_ifs at h
      all_goals cases h
      all_goals rfl

theorem tokenizeFrom_eof {pos skip : Nat} {chars : List Char} {ts : List (Token F64)}
    (h : tokenizeFrom pos skip chars = .ok ts) : ∃ l, ts = l ++ [.eof] ∧ ∀ t ∈ l, isEof t = false := by
  induction chars generalizing pos skip ts with
  | nil =>
    cases h
    exact ⟨[], rfl, by simp⟩
  | cons c rest ih =>
    cases skip with
    | succ skip => exact ih h
    | zero =>
      rw [tokenizeFrom] at h
      split_ifs at h
      · exact ih h
      · cases hnext : (nextToken pos c rest : Parse F64 (Token F64 × Nat)) with
        | error e => simp [hnext, bind, Except.bind] at h
        | ok r =>
          obtain ⟨t, width⟩ := r
          simp only [hnext, bind, Except.bind] at h
          split at h
          · cases h
          · rename_i more hmore
            cases h
            obtain ⟨l, rfl, hl⟩ := ih hmore
            exact ⟨t :: l, rfl, List.forall_mem_cons.mpr ⟨nextToken_not_eof hnext, hl⟩⟩

end

/-! ## Printings keep apart -/

def startsOperand : Token F64 → Bool
  | .int _ => true
  | .ident _ => true
  | .lparen => true
  | .minus => true
  | .bang => true
  | .tilde => true
  | _ => false

def endsOperand : Token F64 → Bool
  | .int _ => true
  | .ident _ => true
  | .rparen => true
  | _ => false

def isWord : Token F64 → Bool
  | .int _ => true
  | .ident _ => true
  | _ => false

/-- Behind an operator, a comma or an opening parenthesis every operand is told apart. -/
theorem apart_operand {t u : Token F64} (ht : endsOperand t = false) (hu : startsOperand u = true)
    (hspell : Spellable u) : Apart t u := by
  have hword : ∀ c : Char, isIdentChar c = true ∨ c = '.' → clearOf t c = true := by
    intro c hc
    have hne : c ≠ '&' ∧ c ≠ '|' ∧ c ≠ '=' ∧ c ≠ '<' ∧ c ≠ '>' := by
      refine ⟨?_, ?_, ?_, ?_, ?_⟩ <;> (rintro rfl; revert hc; decide)
    obtain ⟨hamp, hpipe, heq, hlt, hgt⟩ := hne
    cases t <;> simp_all [clearOf, endsOperand]
  intro c hc
  cases u with
  | int n =>
    have hdigit := isAsciiDigit_toDigits n.toNatClampNeg c (List.mem_of_mem_head? hc)
    exact hword c (.inl (by simp [isIdentChar, hdigit]))
  | ident name =>
    obtain ⟨number, d, tail, heq, hnumber, -, -, hd, -⟩ := hspell
    have hhead : (number ++ d :: tail).head? = some c := heq ▸ hc
    cases number with
    | nil =>
      obtain rfl : d = c := by simpa using hhead
      exact hword d (.inl (by rw [isIdentChar_eq, hd, Bool.true_or]))
    | cons e number =>
      obtain rfl : e = c := by simpa using hhead
      rcases hnumber e List.mem_cons_self with hdigit | hpoint
      · exact hword e (.inl (by simp [isIdentChar, hdigit]))
      · exact hword e (.inr hpoint)
  | lparen | minus | bang | tilde =>
    cases hc
    cases t <;> rfl
  | _ => cases hu

/-- Behind an operand every token that is no word is told apart. -/
theorem apart_symbol {t u : Token F64} (ht : endsOperand t = true) (hu : isWord u = false) :
    Apart t u := by
  intro c hc
  have hsymbol : isIdentChar c = false ∧ c ≠ '.' := by
    cases u with
    | int n => cases hu
    | ident name => cases hu
    | _ =>
      cases hc
      all_goals decide
  cases t with
  | int n => simp [clearOf, hsymbol]
  | ident name => simp [clearOf, hsymbol]
  | rparen => rfl
  | _ => cases ht

/-- Tokens that begin and end as an operand does, can be spelled and keep apart. -/
structure Framed (l : List (Token F64)) : Prop where
  first : ∃ t rest, l = t :: rest ∧ startsOperand t = true
  last : ∃ rest t, l = rest ++ [t] ∧ endsOperand t = true
  apart : l.IsChain Apart
  spell : ∀ t ∈ l, Spellable t

theorem Framed.single {t : Token F64} (hstart : startsOperand t = true) (hend : endsOperand t = true)
    (hspell : Spellable t) : Framed [t] :=
  ⟨⟨t, [], rfl, hstart⟩, ⟨[], t, rfl, hend⟩, List.isChain_singleton t, by simpa using hspell⟩

theorem Framed.isChain_cons {l : List (Token F64)} (h : Framed l) {t : Token F64}
    (ht : endsOperand t = false) : (t :: l).IsChain Apart := by
  obtain ⟨u, rest, rfl, hu⟩ := h.first
  refine List.isChain_cons.mpr ⟨?_, h.apart⟩
  intro v hv
  obtain rfl : u = v := by simpa using hv
  exact apart_operand ht hu (h.spell u List.mem_cons_self)

theorem Framed.isChain_append {l m : List (Token F64)} (h : Framed l) {t : Token F64}
    (ht : isWord t = false) (hm : (t :: m).IsChain Apart) : (l ++ t :: m).IsChain Apart := by
  obtain ⟨rest, u, rfl, hu⟩ := h.last
  refine List.isChain_append.mpr ⟨h.apart, hm, ?_⟩
  intro v hv w hw
  obtain rfl : u = v := by simpa using hv
  obtain rfl : t = w := by simpa using hw
  exact apart_symbol hu ht

/-- An operator or a comma, an operand before it and one behind it. -/
theorem Framed.join {l m : List (Token F64)} (hl : Framed l) (hm : Framed m) {t : Token F64}
    (hword : isWord t = false) (hend : endsOperand t = false) (hspell : Spellable t) :
    Framed (l ++ t :: m) := by
  obtain ⟨u, rest, rfl, hu⟩ := hl.first
  obtain ⟨rest', v, rfl, hv⟩ := hm.last
  refine ⟨⟨u, rest ++ t :: (rest' ++ [v]), rfl, hu⟩, ⟨u :: rest ++ t :: rest', v, by simp, hv⟩,
    hl.isChain_append hword (hm.isChain_cons hend), ?_⟩
  intro w hw
  rcases List.mem_append.mp hw with hw | hw
  · exact hl.spell w hw
  · rcases List.mem_cons.mp hw with rfl | hw
    · exact hspell
    · exact hm.spell w hw

theorem Framed.lead {l : List (Token F64)} (hl : Framed l) {t : Token F64}
    (hstart : startsOperand t = true) (hend : endsOperand t = false) (hspell : Spellable t) :
    Framed (t :: l) := by
  obtain ⟨rest, v, rfl, hv⟩ := hl.last
  exact ⟨⟨t, rest ++ [v], rfl, hstart⟩, ⟨t :: rest, v, rfl, hv⟩, hl.isChain_cons hend,
    List.forall_mem_cons.mpr ⟨hspell, hl.spell⟩⟩

theorem Framed.parens {l : List (Token F64)} (hl : Framed l) : Framed (Rust.parens l) := by
  have hopen := Framed.lead hl (t := .lparen) rfl rfl trivial
  refine ⟨⟨.lparen, l ++ [Token.rparen], rfl, rfl⟩, ⟨.lparen :: l, .rparen, rfl, rfl⟩,
    hopen.isChain_append rfl (List.isChain_singleton _), ?_⟩
  intro t ht
  rcases List.mem_append.mp (ht : t ∈ (Token.lparen :: l) ++ [Token.rparen]) with ht | ht
  · exact hopen.spell t ht
  · rw [List.mem_singleton.mp ht]
    trivial

/-! ## The parser and the printings -/

/-- Literals that the language can spell without a point, and variables that are not named like
a truth value. -/
def Plain : Expr F64 → Prop
  | .literal (.int n) => 0 ≤ n
  | .literal (.bool _) => True
  | .literal (.float _) => False
  | .var name => Identifier name ∧ boolWord name = none
  | .unary _ operand => Plain operand
  | .binary _ left right => Plain left ∧ Plain right
  | .ite condition thenBranch elseBranch => Plain condition ∧ Plain thenBranch ∧ Plain elseBranch

theorem Plain.named {e : Expr F64} (h : Plain e) : Named e := by
  induction e with
  | literal v => trivial
  | var name => exact h.2
  | unary op operand ih => exact ih h
  | binary op left right ihl ihr => exact ⟨ihl h.1, ihr h.2⟩
  | ite c t f ihc iht ihf => exact ⟨ihc h.1, iht h.2.1, ihf h.2.2⟩

theorem identifier_of_word {name : String} (c : Char) (tail : List Char)
    (hname : name.toList = c :: tail) (hc : startsIdent c = true)
    (htail : ∀ d ∈ tail, isIdentChar d = true) : Identifier name :=
  ⟨[], c, tail, hname, by simp, by simp, by simp, hc, htail⟩

theorem framed_print {e : Expr F64} (h : Plain e) (p : Nat) : Framed (print p e) := by
  have hbinop : ∀ op : BinOp, isWord (binopToken op : Token F64) = false ∧
      endsOperand (binopToken op : Token F64) = false ∧ Spellable (binopToken op : Token F64) := by
    intro op
    cases op <;> exact ⟨rfl, rfl, trivial⟩
  induction e generalizing p with
  | literal v =>
    cases v with
    | int n => exact .single rfl rfl h
    | float x => exact h.elim
    | bool b =>
      apply Framed.single rfl rfl
      cases b
      · exact identifier_of_word 'f' ['a', 'l', 's', 'e'] rfl rfl (List.all_eq_true.mp rfl)
      · exact identifier_of_word 't' ['r', 'u', 'e'] rfl rfl (List.all_eq_true.mp rfl)
  | var name => exact .single rfl rfl h.1
  | unary op operand ih =>
    have hoperand := ih h (prefixBp op)
    cases op <;> exact hoperand.lead rfl rfl trivial
  | binary op left right ihl ihr =>
    obtain ⟨hword, hend, hspell⟩ := hbinop op
    have hall := (ihl h.1 (infixBp op).1).join (ihr h.2 (infixBp op).2) hword hend hspell
    rw [print]
    split_ifs
    · exact hall.parens
    · exact hall
  | ite c t f ihc iht ihf =>
    have hcomma : Spellable (.comma : Token F64) := trivial
    have hargs : Framed (print 0 c ++ .comma :: (print 0 t ++ .comma :: print 0 f)) :=
      (ihc h.1 0).join ((iht h.2.1 0).join (ihf h.2.2 0) rfl rfl hcomma) rfl rfl hcomma
    have hlist : print p (.ite c t f) =
        .ident "IF" :: parens (print 0 c ++ .comma :: (print 0 t ++ .comma :: print 0 f)) := by
      simp [print, parens]
    have hcall := hargs.parens
    obtain ⟨rest, v, hlast, hv⟩ := hcall.last
    rw [hlist]
    refine ⟨⟨_, _, rfl, rfl⟩, ⟨.ident "IF" :: rest, v, by rw [hlast, List.cons_append], hv⟩, ?_, ?_⟩
    · refine List.isChain_cons.mpr ⟨?_, hcall.apart⟩
      intro u hu
      obtain rfl : .lparen = u := by simpa [parens] using hu
      exact apart_symbol rfl rfl
    · exact List.forall_mem_cons.mpr
        ⟨identifier_of_word 'I' ['F'] rfl rfl (List.all_eq_true.mp rfl), hcall.spell⟩

/-- For every syntax tree and every token list: the printing with the fewest parentheses is read
back whatever its spacing, no printing is shorter, and what the parser accepts is, up to the end
marker, a printing of its result. -/
theorem parser_laws [FloatOps F64 F32] :
    (∀ e : Expr F64, Plain e → ∀ text : String, Spaced (print 0 e) text.toList →
      ∃ tokens, tokenize text = .ok tokens ∧ parse tokens = .ok e) ∧
    (∀ (p : Nat) (e : Expr F64) (l : List (Token F64)), Printing p e l →
      (print p e).length ≤ l.length) ∧
    (∀ (tokens : List (Token F64)) (e : Expr F64),
      parse tokens = .ok e ↔ Printing 0 e (beforeEof tokens)) ∧
    ∀ (text : String) (tokens : List (Token F64)) (e : Expr F64), tokenize text = .ok tokens →
      parse tokens = .ok e → ∃ l, tokens = l ++ [.eof] ∧ Printing 0 e l := by
  refine ⟨?_, fun p e l hl => hl.print_le, fun tokens e => parse_iff, ?_⟩
  · intro e he text hspaced
    have hframed := framed_print he 0
    have hprinting := printing_print he.named 0
    have htokens : tokenize text = .ok (print 0 e ++ [.eof]) :=
      tokenizeFrom_spaced hspaced hframed.spell hframed.apart 0
    refine ⟨_, htokens, ?_⟩
    rw [parse_iff, beforeEof_append hprinting.no_eof rfl]
    exact hprinting
  · intro text tokens e htokens hparse
    obtain ⟨l, rfl, hl⟩ := tokenizeFrom_eof htokens
    rw [parse_iff, beforeEof_append hl rfl] at hparse
    exact ⟨l, rfl, hparse⟩

/-- Tokens behind an end marker are accepted unseen, and a variable in capitals is read as a
truth value. -/
theorem printing_lost :
    ((parse [.int 1, .eof, .int 2] : Parse Int (Expr Int)) = .ok (.literal (.int 1)) ∧
      ∀ l : List (Token Int), Printing 0 (.literal (.int 1)) l →
        l ≠ [.int 1, .eof, .int 2] ∧ l ++ [.eof] ≠ [.int 1, .eof, .int 2]) ∧
    (Identifier "TRUE" ∧ "TRUE" ≠ "true" ∧ "TRUE" ≠ "false" ∧
      print 0 (.var "TRUE" : Expr Int) = [.ident "TRUE"] ∧
      (tokenize "TRUE" : Parse Int (List (Token Int))) = .ok [.ident "TRUE", .eof] ∧
      (parse [.ident "TRUE", .eof] : Parse Int (Expr Int)) = .ok (.literal (.bool true))) := by
  refine ⟨⟨rfl, ?_⟩, ?_, by decide, by decide, rfl, rfl, rfl⟩
  · intro l hl
    constructor
    · rintro rfl
      have hno := hl.no_eof .eof (by simp)
      cases hno
    · intro heq
      have hlast := congrArg List.getLast? heq
      simp at hlast
  · exact identifier_of_word 'T' ['R', 'U', 'E'] rfl rfl (List.all_eq_true.mp rfl)

end RcdServer.Calc.Rust
