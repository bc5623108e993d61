import RcdServer.Calc.Go.Expression
import RcdServer.Calc.Rust.Expression

/-!
# The two tokenizers and parsers

What the manager reads as an expression, the Rust engine reads as the same tree with the same
variables, if it reads it at all: it refuses a vertical tab, which the manager skips as a space.
-/
namespace RcdServer.Calc

open Lib.Text

/-! ## Tokens -/

section

variable {F64 F32 : Type} [FloatOps F64 F32]

theorem numberWidth_eq (hasDot : Bool) (chars : List Char) :
    Go.numberWidth hasDot chars = Rust.numberSpan hasDot chars := by
  induction chars generalizing hasDot with
  | nil => rfl
  | cons c rest ih =>
    have hdigit : Go.isASCIIDigit c = isAsciiDigit c := rfl
    unfold Go.numberWidth Rust.numberSpan
    rw [ih, ih, hdigit]
    by_cases hdot : c = '.'
    · cases hasDot <;> simp [hdot]
    · have hbeq : (c == '.') = false := by simpa using hdot
      simp [hbeq]

theorem identWidth_eq (chars : List Char) : Go.identWidth chars = Rust.identSpan chars := rfl

theorem operatorToken_eq (pos : Nat) (c : Char) (rest : List Char) :
    (Go.operatorToken pos c rest : Parse F64 (Token F64 × Nat)) = Rust.operatorToken pos c rest := by
  unfold Go.operatorToken
  split
  case h_17 => 
    unfold Rust.operatorToken
    split <;> first | rfl | contradiction
  all_goals
    simp only [Rust.operatorToken]
    try split_ifs <;> first | rfl | contradiction

theorem parseFloat_some {text : String} {x : F64} (h : Go.parseFloat text = some x) :
    FloatOps.ofText text = some x := by
  unfold Go.parseFloat at h
  cases hx : (FloatOps.ofText text : Option F64) with
  | none => simp [hx] at h
  | some y =>
    simp only [hx] at h
    split_ifs at h
    exact h

theorem numberToken_of_go {chars : List Char} {r : Token F64 × Nat}
    (h : Go.numberToken chars = .ok r) : Rust.numberToken chars = .ok r := by
  unfold Go.numberToken at h
  unfold Rust.numberToken
  rw [numberWidth_eq] at h
  generalize Rust.numberSpan false chars = span at h ⊢
  obtain ⟨width, hasDot⟩ := span
  simp only [identWidth_eq] at h ⊢
  change (if ((chars.drop width).head?.any fun c => isAsciiAlphabetic c || c == '_') = true then _
    else _) = _ at h
  split_ifs at h ⊢ with hnamed hdot
  · exact h
  · split at h
    · rename_i x hx
      rw [parseFloat_some hx]
      exact h
    · cases h
  · exact h

theorem nextToken_of_go {pos : Nat} {c : Char} {rest : List Char} {r : Token F64 × Nat}
    (h : Go.nextToken pos c rest = .ok r) : Rust.nextToken pos c rest = .ok r := by
  unfold Go.nextToken at h
  unfold Rust.nextToken
  change (if (isAsciiDigit c || (c == '.' && rest.head?.any isAsciiDigit)) = true then _ 
    else if (isAsciiAlphabetic c || c == '_') = true then _ else _) = _ at h
  split_ifs at h ⊢ 
  · exact numberToken_of_go h
  · exact h
  · rw [← operatorToken_eq]
    exact h

theorem isAsciiWhiteSpace_isSpace {c : Char} (h : isAsciiWhiteSpace c = true) :
    Go.isSpace c = true := by
  simp only [Go.isSpace, isWhiteSpace, isAsciiWhiteSpace, Bool.and_eq_true, Bool.or_eq_true,
    decide_eq_true_eq, beq_iff_eq] at h ⊢
  omega

/-- The vertical tab is the only character on which the two notions of a space differ. -/
theorem isSpace_cases {c : Char} (h : Go.isSpace c = true) :
    isAsciiWhiteSpace c = true ∨ c = '\x0b' := by
  by_cases hc : c.toNat = 11
  · exact .inr (Char.toNat_inj.mp hc)
  · left
    simp only [Go.isSpace, isWhiteSpace, isAsciiWhiteSpace, Bool.and_eq_true, Bool.or_eq_true,
      decide_eq_true_eq, beq_iff_eq] at h ⊢
    omega

theorem nextToken_verticalTab (pos : Nat) (rest : List Char) :
    (Rust.nextToken pos '\x0b' rest : Parse F64 (Token F64 × Nat)) =
      .error (.illegalChar pos '\x0b') := rfl

/-- Tokens that both tokenizers accept are the same. -/
theorem tokenizeFrom_both {count pos skip : Nat} {chars : List Char} {ts us : List (Token F64)}
    (hg : Go.tokenizeFrom count pos skip chars = .ok ts)
    (hr : Rust.tokenizeFrom pos skip chars = .ok us) : us = ts := by
  induction chars generalizing count pos skip ts us with
  | nil =>
    cases hg
    cases hr
    rfl
  | cons c rest ih =>
    cases skip with
    | succ skip => exact ih hg hr
    | zero =>
      rw [Rust.tokenizeFrom] at hr
      rw [Go.tokenizeFrom] at hg
      by_cases hspace : Go.isSpace c = true
      · rw [if_pos hspace] at hg
        rcases isSpace_cases hspace with hws | rfl
        · rw [if_pos hws] at hr
          exact ih hg hr
        · rw [nextToken_verticalTab] at hr
          cases hr
      · have hws : ¬ isAsciiWhiteSpace c = true := fun h => hspace (isAsciiWhiteSpace_isSpace h)
        rw [if_neg hspace] at hg
        rw [if_neg hws] at hr
        cases hnext : (Go.nextToken pos c rest : Parse F64 (Token F64 × Nat)) with
        | error e => simp [hnext, bind, Except.bind] at hg
        | ok r =>
          obtain ⟨token, width⟩ := r
          simp only [hnext, nextToken_of_go hnext, bind, Except.bind] at hg hr
          split_ifs at hg
          split at hg
          · cases hg
          · split at hr
            · cases hr
            · rename_i hts _ _ hus
              cases hg
              cases hr
              rw [ih hts hus]

/-- Without a vertical tab the Rust tokenizer accepts what the manager accepts. -/
theorem tokenizeFrom_of_go {count pos skip : Nat} {chars : List Char} {ts : List (Token F64)}
    (hvt : '\x0b' ∉ chars) (h : Go.tokenizeFrom count pos skip chars = .ok ts) :
    Rust.tokenizeFrom pos skip chars = .ok ts := by
  induction chars generalizing count pos skip ts with
  | nil => simpa [Go.tokenizeFrom, Rust.tokenizeFrom] using h
  | cons c rest ih =>
    obtain ⟨hc, hrest⟩ := not_or.mp (List.mem_cons.not.mp hvt)
    cases skip with
    | succ skip => exact ih hrest h
    | zero =>
      rw [Rust.tokenizeFrom]
      rw [Go.tokenizeFrom] at h
      by_cases hspace : Go.isSpace c = true
      · have hws := (isSpace_cases hspace).resolve_right (Ne.symm hc)
        rw [if_pos hspace] at h
        rw [if_pos hws]
        exact ih hrest h
      · have hws : ¬ isAsciiWhiteSpace c = true := fun h => hspace (isAsciiWhiteSpace_isSpace h)
        rw [if_neg hspace] at h
        rw [if_neg hws]
        cases hnext : (Go.nextToken pos c rest : Parse F64 (Token F64 × Nat)) with
        | error e => simp [hnext, bind, Except.bind] at h
        | ok r =>
          obtain ⟨token, width⟩ := r
          simp only [hnext, nextToken_of_go hnext, bind, Except.bind] at h ⊢
          split_ifs at h
          split at h
          · cases h
          · rename_i hts
            rw [ih hrest hts]
            exact h

/-! ## A vertical tab is never part of a token -/

theorem numberSpan_chars (hasDot : Bool) (chars : List Char) :
    ∀ c ∈ chars.take (Rust.numberSpan hasDot chars).1, isAsciiDigit c = true ∨ c = '.' := by
  induction chars generalizing hasDot with
  | nil => simp
  | cons c rest ih =>
    unfold Rust.numberSpan
    split_ifs with hnum hdot
    · simp
    · simp only [List.take_succ_cons, List.mem_cons]
      rintro d (rfl | hd)
      · simpa using hnum
      · exact ih _ d hd
    · simp

theorem identSpan_chars (chars : List Char) :
    ∀ c ∈ chars.take (Rust.identSpan chars), Rust.isIdentChar c = true := by
  induction chars with
  | nil => simp
  | cons c rest ih =>
    by_cases hc : Rust.isIdentChar c = true
    · have hspan : Rust.identSpan (c :: rest) = Rust.identSpan rest + 1 := by
        simp [Rust.identSpan, hc]
      rw [hspan, List.take_succ_cons]
      exact List.forall_mem_cons.mpr ⟨hc, ih⟩
    · simp [Rust.identSpan, hc]

/-- The characters of a token other than an operator. -/
def isTokenChar (c : Char) : Bool := Rust.isIdentChar c || c == '.'

theorem numberToken_chars {chars : List Char} {token : Token F64} {width : Nat}
    (h : Rust.numberToken chars = .ok (token, width)) :
    ∀ c ∈ chars.take width, isTokenChar c = true := by
  have hspan : ∀ c ∈ chars.take (Rust.numberSpan false chars).1, isTokenChar c = true := by
    intro c hc
    rcases numberSpan_chars false chars c hc with hd | rfl
    · simp [isTokenChar, Rust.isIdentChar, hd]
    · rfl
  unfold Rust.numberToken at h
  generalize Rust.numberSpan false chars = span at h hspan
  obtain ⟨n, hasDot⟩ := span
  simp only at h hspan
  split_ifs at h
  · cases h
    intro c hc
    rw [List.take_add] at hc
    rcases List.mem_append.mp hc with hc | hc
    · exact hspan c hc
    · simp [isTokenChar, identSpan_chars _ c hc]
  · split at h
    · cases h
      exact hspan
    · cases h
  · split at h
    · cases h
      exact hspan
    · cases h

theorem operatorToken_chars {pos : Nat} {c : Char} {rest : List Char} {token : Token F64}
    {width : Nat} (h : Rust.operatorToken pos c rest = .ok (token, width)) :
    '\x0b' ∉ rest.take (width - 1) := by
  have hone : ∀ d : Char, rest.head? = some d → d ≠ '\x0b' → '\x0b' ∉ rest.take (2 - 1) := by
    intro d hhead hd
    cases rest with
    | nil => simp
    | cons e rest =>
      obtain rfl : e = d := by simpa using hhead
      simpa using Ne.symm hd
  unfold Rust.operatorToken at h
  split at h
  all_goals
    try split_ifs at h
    all_goals cases h
    all_goals first
      | exact List.not_mem_nil
      | exact hone _ ‹_› (by decide)

theorem nextToken_chars {pos : Nat} {c : Char} {rest : List Char} {token : Token F64} {width : Nat}
    (h : Rust.nextToken pos c rest = .ok (token, width)) : '\x0b' ∉ c :: rest.take (width - 1) := by
  have hc : c ≠ '\x0b' := by
    rintro rfl
    rw [nextToken_verticalTab] at h
    cases h
  have htail : (∀ d ∈ (c :: rest).take width, isTokenChar d = true) →
      '\x0b' ∉ rest.take (width - 1) := by
    intro hall hmem
    cases width with
    | zero => simp at hmem
    | succ width =>
      have hbad := hall '\x0b' (by
        rw [List.take_succ_cons]
        exact List.mem_cons_of_mem c hmem)
      revert hbad
      decide
  refine List.not_mem_cons_of_ne_of_not_mem (Ne.symm hc) ?_
  unfold Rust.nextToken at h
  split_ifs at h
  · exact htail (numberToken_chars h)
  · cases h
    refine htail fun d hd => ?_
    simp [isTokenChar, identSpan_chars _ d hd]
  · exact operatorToken_chars h

theorem verticalTab_not_mem {pos skip : Nat} {chars : List Char} {ts : List (Token F64)}
    (h : Rust.tokenizeFrom pos skip chars = .ok ts) : '\x0b' ∉ chars.drop skip := by
  induction chars generalizing pos skip ts with
  | nil => simp
  | cons c rest ih =>
    cases skip with
    | succ skip => exact ih h
    | zero =>
      rw [Rust.tokenizeFrom] at h
      by_cases hws : isAsciiWhiteSpace c = true
      · rw [if_pos hws] at h
        have hc : '\x0b' ≠ c := by
          rintro rfl
          revert hws
          decide
        exact List.not_mem_cons_of_ne_of_not_mem hc (ih h)
      · rw [if_neg hws] at h
        cases hnext : (Rust.nextToken pos c rest : Parse F64 (Token F64 × Nat)) with
        | error e => simp [hnext, bind, Except.bind] at h
        | ok r =>
          obtain ⟨token, width⟩ := r
          simp only [hnext, bind, Except.bind] at h
          split at h
          · cases h
          · rename_i hus
            have htoken := nextToken_chars hnext
            have hfront := List.not_mem_of_not_mem_cons htoken
            have hback := ih hus
            rw [List.drop_zero]
            refine List.not_mem_cons_of_ne_of_not_mem (List.ne_of_not_mem_cons htoken) ?_
            rw [← List.take_append_drop (width - 1) rest, List.mem_append]
            exact not_or.mpr ⟨hfront, hback⟩

end

/-! ## Syntax trees -/

section
variable {F64 : Type}

theorem bindingPower_eq (op : BinOp) : Go.bindingPower op = Rust.infixBp op := by
  cases op <;> rfl

variable (p : Nat → List (Token F64) → Parse F64 (Rest F64))

theorem parseLeft_eq (ts : List (Token F64)) : Go.parseLeft p ts = Rust.prefixPart p ts := rfl

theorem parseOperators_eq (minBP fuel : Nat) (left : Expr F64) (ts : List (Token F64)) :
    Go.parseOperators p minBP fuel left ts = Rust.infixPart p minBP fuel left ts := by
  induction fuel generalizing left ts with
  | zero => rfl
  | succ fuel ih =>
    have hpeek : Go.peek ts = Rust.peek ts := rfl
    unfold Go.parseOperators Rust.infixPart
    rw [hpeek]
    generalize Rust.peek ts = t
    cases t <;> simp [Go.tokenBinary, Rust.tokenToBinop, bindingPower_eq, ih]

theorem parse_eq (fuel minBP : Nat) (ts : List (Token F64)) :
    Go.parse fuel minBP ts = Rust.exprBp fuel minBP ts := by
  induction fuel generalizing minBP ts with
  | zero => rfl
  | succ fuel ih =>
    have hsub : (Go.parse fuel : Nat → List (Token F64) → _) = Rust.exprBp fuel := by
      funext m us
      exact ih m us
    unfold Go.parse Rust.exprBp
    rw [hsub, parseLeft_eq]
    simp only [parseOperators_eq]

theorem mem_rust_collectVariables (e : Expr F64) (out : List String) (name : String) :
    name ∈ Rust.collectVariables e out ↔ name ∈ out ∨ Go.Mentions name e := by
  induction e generalizing out with
  | literal v => simp [Rust.collectVariables, Go.Mentions]
  | var v => simp [Rust.collectVariables, Go.Mentions, eq_comm]
  | unary op operand ih => simp [Rust.collectVariables, Go.Mentions, ih]
  | binary op left right ihl ihr => simp [Rust.collectVariables, Go.Mentions, ihl, ihr, or_assoc]
  | ite c t e ihc iht ihe => simp [Rust.collectVariables, Go.Mentions, ihc, iht, ihe, or_assoc]

theorem extractVariables_eq (e : Expr F64) :
    Rust.extractVariables e = sortTexts (Go.collectVariables e []) := by
  apply dedupRuns_sortTexts (Go.nodup_collectVariables e List.nodup_nil)
  intro name
  rw [mem_rust_collectVariables, Go.mem_collectVariables]

variable {F32 : Type} [FloatOps F64 F32]

theorem parseExpression_ok {text : String} {ast : Expr F64} {vars : List String}
    (h : Go.parseExpression text = .ok (ast, vars)) :
    ∃ tokens, Go.tokenize text = .ok tokens ∧ Rust.parse tokens = .ok ast ∧
      Rust.extractVariables ast = vars := by
  unfold Go.parseExpression at h
  cases htok : (Go.tokenize text : Parse F64 (List (Token F64))) with
  | error e => simp [htok, bind, Except.bind] at h
  | ok tokens =>
    refine ⟨tokens, rfl, ?_⟩
    simp only [htok, bind, Except.bind, parse_eq] at h
    unfold Rust.parse
    cases hexpr : Rust.exprBp (tokens.length + 1) 0 tokens with
    | error e => simp [hexpr] at h
    | ok r =>
      obtain ⟨expr, rest⟩ := r
      have hpeek : Go.peek rest = Rust.peek rest := rfl
      simp only [hexpr, bind, Except.bind, hpeek] at h ⊢
      generalize Rust.peek rest = token at h ⊢
      cases token with
      | eof =>
        cases h
        exact ⟨rfl, extractVariables_eq ast⟩
      | _ => cases h

/-- An expression that the manager accepts and whose tokens the Rust engine accepts is the same
tree with the same variables for both. -/
theorem expression_agree {text : String} {ast : Expr F64} {vars : List String}
    {tokens : List (Token F64)} (hg : Go.parseExpression text = .ok (ast, vars))
    (hr : Rust.tokenize text = .ok tokens) :
    Rust.parse tokens = .ok ast ∧ Rust.extractVariables ast = vars := by
  obtain ⟨ts, htok, hparse, hvars⟩ := parseExpression_ok hg
  rw [tokenizeFrom_both htok hr]
  exact ⟨hparse, hvars⟩

/-- Of the expressions that the manager accepts, the Rust engine tokenizes exactly those
without a vertical tab. -/
theorem tokenize_admits_iff {text : String} {ast : Expr F64} {vars : List String}
    (hg : Go.parseExpression text = .ok (ast, vars)) :
    (∃ tokens : List (Token F64), Rust.tokenize text = .ok tokens) ↔ '\x0b' ∉ text.toList := by
  constructor
  · rintro ⟨tokens, htok⟩
    simpa using verticalTab_not_mem htok
  · intro hvt
    obtain ⟨ts, htok, -, -⟩ := parseExpression_ok hg
    exact ⟨ts, tokenizeFrom_of_go hvt htok⟩

end

end RcdServer.Calc
