import Mathlib.Data.List.Sort
import Mathlib.Data.String.Basic

/-!
# Text primitives

White space, control characters and decimal numbers as the standard libraries of
Rust and Go define them. Strings are handled through their characters.
-/
namespace RcdServer.Lib.Text

/-- The Unicode property `White_Space`. -/
def isWhiteSpace (c : Char) : Bool :=
  let n := c.toNat
  (9 ≤ n && n ≤ 13) || n == 0x20 || n == 0x85 || n == 0xA0 || n == 0x1680 ||
    (0x2000 ≤ n && n ≤ 0x200A) || n == 0x2028 || n == 0x2029 || n == 0x202F || n == 0x205F ||
    n == 0x3000

/-- The Unicode category `Cc`. -/
def isControl (c : Char) : Bool :=
  c.toNat < 0x20 || (0x7F ≤ c.toNat && c.toNat ≤ 0x9F)

def trimChars (cs : List Char) : List Char :=
  ((cs.dropWhile isWhiteSpace).reverse.dropWhile isWhiteSpace).reverse

def trim (s : String) : String := String.ofList (trimChars s.toList)

theorem fromUTF8_text (text : String) : String.fromUTF8? text.toByteArray = some text := by
  unfold String.fromUTF8?
  simp only [Option.dite_none_right_eq_some, Option.some.injEq]
  exact ⟨text.isValidUTF8, rfl⟩

/-- `str::split` at single characters; there is one piece more than there are separators. -/
def splitAtChars (sep : Char → Bool) : List Char → List (List Char)
  | [] => [[]]
  | c :: cs =>
    if sep c then [] :: splitAtChars sep cs
    else
      match splitAtChars sep cs with
      | [] => [[c]]
      | piece :: rest => (c :: piece) :: rest

def isAsciiDigit (c : Char) : Bool := decide ('0' ≤ c ∧ c ≤ '9')

def isAsciiAlphabetic (c : Char) : Bool :=
  decide ('a' ≤ c ∧ c ≤ 'z') || decide ('A' ≤ c ∧ c ≤ 'Z')

/-- `char::is_ascii_whitespace`: space, tab, line feed, form feed and carriage return. -/
def isAsciiWhiteSpace (c : Char) : Bool :=
  let n := c.toNat
  n == 0x20 || n == 9 || n == 10 || n == 12 || n == 13

/-- Lower case of the ASCII letters; every other character stays. -/
def asciiLower (s : String) : String := String.ofList (s.toList.map Char.toLower)

def digit? (c : Char) : Option Nat :=
  if '0' ≤ c ∧ c ≤ '9' then some (c.toNat - '0'.toNat) else none

/-- Decimal digits from the left; a bad digit is noticed before the overflow it would cause. -/
def parseDigits (max : Nat) (acc : Nat) : List Char → Except String Nat
  | [] => .ok acc
  | c :: cs =>
    match digit? c with
    | none => .error "invalid digit found in string"
    | some d =>
      if acc * 10 + d ≤ max then parseDigits max (acc * 10 + d) cs
      else .error "number too large to fit in target type"

/-- `str::parse` of an unsigned integer type with the given maximum. -/
def parseUnsigned (max : Nat) (s : String) : Except String Nat :=
  match s.toList with
  | [] => .error "cannot parse integer from empty string"
  | ['+'] => .error "invalid digit found in string"
  | '+' :: cs => parseDigits max 0 cs
  | cs => parseDigits max 0 cs

/-- `str::parse::<bool>`. -/
def parseBool (s : String) : Except String Bool :=
  if s = "true" then .ok true
  else if s = "false" then .ok false
  else .error "provided string was not `true` or `false`"

/-! ## Sorted texts -/

/-- Byte order of UTF-8 texts, which is the order of their code points. -/
def textLe : List Char → List Char → Bool
  | [], _ => true
  | _ :: _, [] => false
  | a :: as, b :: bs => if a = b then textLe as bs else decide (a.toNat < b.toNat)

def textLt (a b : String) : Bool := !textLe b.toList a.toList

theorem textLe_total (a b : List Char) : textLe a b = true ∨ textLe b a = true := by
  induction a generalizing b with
  | nil => exact .inl rfl
  | cons c a ih =>
    cases b with
    | nil => exact .inr rfl
    | cons d b =>
      by_cases h : c = d
      · subst h
        simpa [textLe] using ih b
      · have hne : c.toNat ≠ d.toNat := fun hn => h (Char.toNat_inj.mp hn)
        simp only [textLe, h, Ne.symm h, if_false, decide_eq_true_eq]
        omega

theorem textLe_antisymm {a b : List Char} (h : textLe a b = true) (h' : textLe b a = true) :
    a = b := by
  induction a generalizing b with
  | nil =>
    cases b with
    | nil => rfl
    | cons d b => cases h'
  | cons c a ih =>
    cases b with
    | nil => cases h
    | cons d b =>
      by_cases hcd : c = d
      · subst hcd
        simp only [textLe, if_true] at h h'
        rw [ih h h']
      · simp only [textLe, hcd, Ne.symm hcd, if_false, decide_eq_true_eq] at h h'
        omega

theorem textLe_trans {a b c : List Char} (h : textLe a b = true) (h' : textLe b c = true) :
    textLe a c = true := by
  induction a generalizing b c with
  | nil => rfl
  | cons x a ih =>
    cases b with
    | nil => cases h
    | cons y b =>
      cases c with
      | nil => cases h'
      | cons z c =>
        by_cases hxy : x = y
        · subst hxy
          by_cases hyz : x = z
          · subst hyz
            simp only [textLe, if_true] at h h' ⊢
            exact ih h h'
          · simpa [textLe, hyz] using h'
        · have hlt : x.toNat < y.toNat := by simpa [textLe, hxy] using h
          have hle : y.toNat ≤ z.toNat := by
            by_cases hyz : y = z
            · exact hyz ▸ Nat.le_refl _
            · exact Nat.le_of_lt (by simpa [textLe, hyz] using h')
          have hxz : x ≠ z := fun hxz => by
            subst hxz
            omega
          simp only [textLe, hxz, if_false, decide_eq_true_eq]
          omega

theorem textLt_trans {a b c : String} (h : textLt a b = true) (h' : textLt b c = true) :
    textLt a c = true := by
  simp only [textLt, Bool.not_eq_true'] at h h' ⊢
  rw [← Bool.not_eq_true] at h h' ⊢
  intro hca
  exact h' (textLe_trans hca ((textLe_total a.toList b.toList).resolve_right h))

theorem eq_of_not_textLt {a b : String} (h : ¬ textLt a b = true) (h' : ¬ textLt b a = true) :
    a = b := by
  simp only [textLt, Bool.not_eq_true', Bool.not_eq_false] at h h'
  exact String.toList_inj.mp (textLe_antisymm h' h)

/-- Sorting of strings in place. -/
def sortTexts (l : List String) : List String :=
  l.insertionSort fun a b => textLe a.toList b.toList

theorem mem_sortTexts {l : List String} {s : String} : s ∈ sortTexts l ↔ s ∈ l :=
  List.mem_insertionSort _

/-- `Vec::dedup`: of every run of equal neighbours one stays. -/
def dedupRuns : List String → List String
  | [] => []
  | [a] => [a]
  | a :: b :: l => if a = b then dedupRuns (b :: l) else a :: dedupRuns (b :: l)

theorem pairwise_sortTexts (l : List String) :
    (sortTexts l).Pairwise fun a b => textLe a.toList b.toList = true :=
  haveI : Std.Total fun a b : String => textLe a.toList b.toList = true :=
    ⟨fun a b => textLe_total a.toList b.toList⟩
  haveI : IsTrans String fun a b => textLe a.toList b.toList = true :=
    ⟨fun _ _ _ h h' => textLe_trans h h'⟩
  List.pairwise_insertionSort _ l

theorem nodup_sortTexts {l : List String} (h : l.Nodup) : (sortTexts l).Nodup :=
  (List.perm_insertionSort _ l).nodup_iff.mpr h

theorem mem_dedupRuns {l : List String} {s : String} : s ∈ dedupRuns l ↔ s ∈ l := by
  fun_induction dedupRuns l with
  | case1 => rfl
  | case2 => rfl
  | case3 b l ih => simp [ih]
  | case4 a b l hne ih => rw [List.mem_cons, ih, ← List.mem_cons]

theorem dedupRuns_sublist (l : List String) : (dedupRuns l).Sublist l := by
  fun_induction dedupRuns l with
  | case1 => exact List.Sublist.refl _
  | case2 => exact List.Sublist.refl _
  | case3 b l ih => exact ih.cons b
  | case4 a b l hne ih => exact ih.cons_cons a

theorem nodup_dedupRuns {l : List String}
    (h : l.Pairwise fun a b => textLe a.toList b.toList = true) : (dedupRuns l).Nodup := by
  fun_induction dedupRuns l with
  | case1 => exact List.nodup_nil
  | case2 => exact List.nodup_singleton _
  | case3 b l ih => exact ih (List.pairwise_cons.mp h).2
  | case4 a b l hne ih =>
    obtain ⟨hle, hrest⟩ := List.pairwise_cons.mp h
    refine List.nodup_cons.mpr ⟨fun hmem => hne ?_, ih hrest⟩
    -- A later copy of `a` would stand behind `b`, which is at least `a`.
    rcases List.mem_cons.mp (mem_dedupRuns.mp hmem) with hab | hin
    · exact hab
    · have hba := (List.pairwise_cons.mp hrest).1 a hin
      exact String.toList_inj.mp (textLe_antisymm (hle b List.mem_cons_self) hba)

/-- Sorting and removing repetitions gives the same list as sorting the set of texts. -/
theorem dedupRuns_sortTexts {l m : List String} (hm : m.Nodup) (h : ∀ s, s ∈ l ↔ s ∈ m) :
    dedupRuns (sortTexts l) = sortTexts m := by
  have hsort := pairwise_sortTexts l
  have hperm : (dedupRuns (sortTexts l)).Perm (sortTexts m) := by
    rw [List.perm_ext_iff_of_nodup (nodup_dedupRuns hsort) (nodup_sortTexts hm)]
    intro s
    rw [mem_dedupRuns, mem_sortTexts, mem_sortTexts, h]
  refine hperm.eq_of_pairwise ?_ (hsort.sublist (dedupRuns_sublist _)) (pairwise_sortTexts m)
  intro a b _ _ hab hba
  exact String.toList_inj.mp (textLe_antisymm hab hba)

end RcdServer.Lib.Text
