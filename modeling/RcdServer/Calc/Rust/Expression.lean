import RcdServer.Calc.Syntax

/-!
# Tokenizer and parser of the Rust engine

`tokenizer.rs` and `parser.rs`. The tokenizer walks the characters; `skip` counts those the
last token has already consumed. The parser is a Pratt parser over the remaining tokens; its
recursion is bounded by the number of tokens, and `parse_total` shows that the bound is never
the reason for a refusal.
-/
namespace RcdServer.Calc.Rust

open Lib.Text

variable {F64 F32 : Type} [FloatOps F64 F32]

/-! ## Tokens -/

/-- Characters of a number from here on, and whether a point has been seen. A second point
ends the number. -/
def numberSpan : Bool → List Char → Nat × Bool
  | hasDot, [] => (0, hasDot)
  | hasDot, c :: rest =>
    if isAsciiDigit c || c == '.' then
      if c == '.' && hasDot then (0, hasDot)
      else
        let more := numberSpan (hasDot || c == '.') rest
        (more.1 + 1, more.2)
    else (0, hasDot)

def isIdentChar (c : Char) : Bool := isAsciiAlphabetic c || isAsciiDigit c || c == '_'

def identSpan (chars : List Char) : Nat := (chars.takeWhile isIdentChar).length

/-- A numeric literal, or an identifier that starts with digits such as `9CYE91GH201_SL1`. -/
def numberToken (chars : List Char) : Parse F64 (Token F64 × Nat) :=
  let (width, hasDot) := numberSpan false chars
  if (chars.drop width).head?.any fun c => isAsciiAlphabetic c || c == '_' then
    let width := width + identSpan (chars.drop width)
    .ok (.ident (String.ofList (chars.take width)), width)
  else
    let text := String.ofList (chars.take width)
    if hasDot then
      match FloatOps.ofText text with
      | some x => .ok (.float x, width)
      | none => .error (.badFloat text)
    else
      match parseUnsigned (2 ^ 63 - 1) text with
      | .ok n => .ok (.int (Int64.ofNat n), width)
      | .error _ => .error (.badInt text)

def operatorToken (pos : Nat) (c : Char) (rest : List Char) :
    Parse F64 (Token F64 × Nat) :=
  match c with
  | '+' => .ok (.plus, 1)
  | '-' => .ok (.minus, 1)
  | '*' => .ok (.star, 1)
  | '/' => .ok (.slash, 1)
  | '%' => .ok (.percent, 1)
  | '^' => .ok (.caret, 1)
  | '~' => .ok (.tilde, 1)
  | '(' => .ok (.lparen, 1)
  | ')' => .ok (.rparen, 1)
  | ',' => .ok (.comma, 1)
  | '&' => if rest.head? = some '&' then .ok (.and, 2) else .ok (.amp, 1)
  | '|' => if rest.head? = some '|' then .ok (.or, 2) else .ok (.pipe, 1)
  | '!' => if rest.head? = some '=' then .ok (.notEq, 2) else .ok (.bang, 1)
  | '=' => if rest.head? = some '=' then .ok (.eq, 2) else .error (.loneEquals pos)
  | '<' =>
    if rest.head? = some '=' then .ok (.ltEq, 2)
    else if rest.head? = some '<' then .ok (.shiftLeft, 2)
    else .ok (.lt, 1)
  | '>' =>
    if rest.head? = some '=' then .ok (.gtEq, 2)
    else if rest.head? = some '>' then .ok (.shiftRight, 2)
    else .ok (.gt, 1)
  | _ => .error (.illegalChar pos c)

/-- The token that starts at `c`, with its width. -/
def nextToken (pos : Nat) (c : Char) (rest : List Char) :
    Parse F64 (Token F64 × Nat) :=
  if isAsciiDigit c || (c == '.' && rest.head?.any isAsciiDigit) then numberToken (c :: rest)
  else if isAsciiAlphabetic c || c == '_' then
    let width := identSpan (c :: rest)
    .ok (.ident (String.ofList ((c :: rest).take width)), width)
  else operatorToken pos c rest

def tokenizeFrom : Nat → Nat → List Char → Parse F64 (List (Token F64))
  | _, _, [] => .ok [.eof]
  | pos, skip + 1, _ :: rest => tokenizeFrom (pos + 1) skip rest
  | pos, 0, c :: rest =>
    if isAsciiWhiteSpace c then tokenizeFrom (pos + 1) 0 rest
    else do
      let (token, width) ← nextToken pos c rest
      let tokens ← tokenizeFrom (pos + 1) (width - 1) rest
      .ok (token :: tokens)

def tokenize (input : String) : Parse F64 (List (Token F64)) :=
  tokenizeFrom 0 0 input.toList

/-! ## Syntax trees -/

omit [FloatOps F64 F32]

def peek : List (Token F64) → Token F64
  | [] => .eof
  | t :: _ => t

def infixBp : BinOp → Nat × Nat
  | .or => (2, 3)
  | .and => (4, 5)
  | .bitOr => (6, 7)
  | .bitXor => (8, 9)
  | .bitAnd => (10, 11)
  | .eq | .notEq => (12, 13)
  | .lt | .gt | .ltEq | .gtEq => (14, 15)
  | .shiftLeft | .shiftRight => (16, 17)
  | .add | .sub => (18, 19)
  | .mul | .div | .mod => (20, 21)

/-- All unary operators bind tighter than any binary one. -/
def prefixBp (_ : UnaryOp) : Nat := 23

def tokenToBinop : Token F64 → Option BinOp
  | .plus => some .add
  | .minus => some .sub
  | .star => some .mul
  | .slash => some .div
  | .percent => some .mod
  | .amp => some .bitAnd
  | .pipe => some .bitOr
  | .caret => some .bitXor
  | .shiftLeft => some .shiftLeft
  | .shiftRight => some .shiftRight
  | .and => some .and
  | .or => some .or
  | .eq => some .eq
  | .notEq => some .notEq
  | .lt => some .lt
  | .gt => some .gt
  | .ltEq => some .ltEq
  | .gtEq => some .gtEq
  | _ => none

/-- `IF(condition, then, else)`, entered before the parenthesis. -/
def parseIfFunction (exprBp : Nat → List (Token F64) → Parse F64 (Rest F64))
    (ts : List (Token F64)) : Parse F64 (Rest F64) :=
  match peek ts with
  | .lparen => do
    let (condition, ts) ← exprBp 0 ts.tail
    match peek ts with
    | .comma => do
      let (thenBranch, ts) ← exprBp 0 ts.tail
      match peek ts with
      | .comma => do
        let (elseBranch, ts) ← exprBp 0 ts.tail
        match peek ts with
        | .rparen => .ok (.ite condition thenBranch elseBranch, ts.tail)
        | _ => .error .ifMissingRParen
      | _ => .error .ifMissingSecondComma
    | _ => .error .ifMissingFirstComma
  | _ => .error .ifMissingLParen

def parseUnary (exprBp : Nat → List (Token F64) → Parse F64 (Rest F64)) (op : UnaryOp)
    (ts : List (Token F64)) : Parse F64 (Rest F64) := do
  let (operand, ts) ← exprBp (prefixBp op) ts
  .ok (.unary op operand, ts)

def eqIgnoreAsciiCase (a b : String) : Bool := asciiLower a == asciiLower b

/-- The part of `expr_bp` before its loop. -/
def prefixPart (exprBp : Nat → List (Token F64) → Parse F64 (Rest F64))
    (ts : List (Token F64)) : Parse F64 (Rest F64) :=
  match peek ts with
  | .int n => .ok (.literal (.int n), ts.tail)
  | .float x => .ok (.literal (.float x), ts.tail)
  | .ident name =>
    if eqIgnoreAsciiCase name "true" then .ok (.literal (.bool true), ts.tail)
    else if eqIgnoreAsciiCase name "false" then .ok (.literal (.bool false), ts.tail)
    else
      match eqIgnoreAsciiCase name "if", peek ts.tail with
      | true, .lparen => parseIfFunction exprBp ts.tail
      | _, _ => .ok (.var name, ts.tail)
  | .lparen => do
    let (inner, ts) ← exprBp 0 ts.tail
    match peek ts with
    | .rparen => .ok (inner, ts.tail)
    | _ => .error .missingRParen
  | .minus => parseUnary exprBp .neg ts.tail
  | .bang => parseUnary exprBp .not ts.tail
  | .tilde => parseUnary exprBp .bitNot ts.tail
  | t => .error (.expectedExpression t)

/-- The loop of `expr_bp` over infix operators that bind at least as tightly as `minBp`. -/
def infixPart (exprBp : Nat → List (Token F64) → Parse F64 (Rest F64)) (minBp : Nat) :
    Nat → Expr F64 → List (Token F64) → Parse F64 (Rest F64)
  | 0, _, _ => .error .outOfFuel
  | fuel + 1, lhs, ts =>
    match tokenToBinop (peek ts) with
    | none => .ok (lhs, ts)
    | some op =>
      let (lBp, rBp) := infixBp op
      if lBp < minBp then .ok (lhs, ts)
      else do
        let (rhs, ts) ← exprBp rBp ts.tail
        infixPart exprBp minBp fuel (.binary op lhs rhs) ts

def exprBp : Nat → Nat → List (Token F64) → Parse F64 (Rest F64)
  | 0, _, _ => .error .outOfFuel
  | fuel + 1, minBp, ts => do
    let (lhs, ts) ← prefixPart (exprBp fuel) ts
    infixPart (exprBp fuel) minBp (ts.length + 1) lhs ts

def parse (tokens : List (Token F64)) : Parse F64 (Expr F64) := do
  let (expr, rest) ← exprBp (tokens.length + 1) 0 tokens
  match peek rest with
  | .eof => .ok expr
  | t => .error (.extraToken t)

/-! ## Every parse ends -/

/-- A parsing function that refused had a reason in the tokens, and one that accepted
consumed at least one of them. -/
def Consumes (n : Nat) : Parse F64 (Rest F64) → Prop
  | .ok (_, rest) => rest.length < n
  | .error e => e ≠ .outOfFuel

/-- Progress on every input shorter than the bound. -/
def Progress (bound : Nat) (exprBp : Nat → List (Token F64) → Parse F64 (Rest F64)) : Prop :=
  ∀ minBp ts, ts.length < bound → Consumes ts.length (exprBp minBp ts)

theorem Consumes.mono {m n : Nat} (hmn : m ≤ n) {r : Parse F64 (Rest F64)} (h : Consumes m r) :
    Consumes n r := by
  cases r with
  | error e => exact h
  | ok x => exact Nat.lt_of_lt_of_le h hmn

/-- Sequencing: what follows an accepted part only has to make do with fewer tokens. -/
theorem Consumes.bind {m n : Nat} {r : Parse F64 (Rest F64)} {f : Rest F64 → Parse F64 (Rest F64)}
    (hr : Consumes m r) (hf : ∀ e rest, rest.length < m → Consumes n (f (e, rest))) :
    Consumes n (r >>= f) := by
  cases r with
  | error e => exact hr
  | ok x => exact hf x.1 x.2 hr

theorem tail_length_lt {ts : List (Token F64)} {t : Token F64} (h : peek ts = t) (ht : t ≠ .eof) :
    ts.tail.length < ts.length := by
  cases ts with
  | nil => exact absurd h.symm ht
  | cons a ts => simp

variable {bound : Nat} {exprBp' : Nat → List (Token F64) → Parse F64 (Rest F64)}

theorem parseIfFunction_consumes (hp : Progress bound exprBp') {ts : List (Token F64)}
    (hts : ts.length ≤ bound) : Consumes ts.length (parseIfFunction exprBp' ts) := by
  unfold parseIfFunction
  split
  · rename_i h0
    have h0 := tail_length_lt h0 (by simp)
    refine (hp 0 _ (by omega)).bind fun c ts1 h1 => ?_
    show Consumes _ (match peek ts1 with | .comma => _ | _ => _)
    split
    · rename_i hk1
      have hk1 := tail_length_lt hk1 (by simp)
      refine (hp 0 _ (by omega)).bind fun t ts2 h2 => ?_
      show Consumes _ (match peek ts2 with | .comma => _ | _ => _)
      split
      · rename_i hk2
        have hk2 := tail_length_lt hk2 (by simp)
        refine (hp 0 _ (by omega)).bind fun e ts3 h3 => ?_
        show Consumes _ (match peek ts3 with | .rparen => _ | _ => _)
        split
        · rename_i hk3
          have hk3 := tail_length_lt hk3 (by simp)
          show ts3.tail.length < ts.length
          omega
        · simp [Consumes]
      · simp [Consumes]
    · simp [Consumes]
  · simp [Consumes]

theorem parseUnary_consumes (hp : Progress bound exprBp') (op : UnaryOp) {ts : List (Token F64)}
    (hts : ts.length < bound) : Consumes ts.length (parseUnary exprBp' op ts) :=
  (hp _ ts hts).bind fun _ _ h => h

theorem prefixPart_consumes (hp : Progress bound exprBp') {ts : List (Token F64)}
    (hts : ts.length ≤ bound) : Consumes ts.length (prefixPart exprBp' ts) := by
  have htail : ∀ {t}, peek ts = t → t ≠ .eof → ts.tail.length < ts.length :=
    fun h ht => tail_length_lt h ht
  unfold prefixPart
  split
  case h_1 n h => exact htail h (by simp)
  case h_2 x h => exact htail h (by simp)
  case h_3 name h =>
    have h := htail h (by simp)
    split
    · exact h
    · split
      · exact h
      · split
        · exact (parseIfFunction_consumes hp (by omega)).mono (by omega)
        · exact h
  case h_4 h =>
    have h := htail h (by simp)
    refine (hp 0 _ (by omega)).bind fun e rest hrest => ?_
    show Consumes _ (match peek rest with | .rparen => _ | _ => _)
    split
    · rename_i hk
      have hk := tail_length_lt hk (by simp)
      show rest.tail.length < ts.length
      omega
    · simp [Consumes]
  case h_5 h =>
    have h := htail h (by simp)
    exact (parseUnary_consumes hp .neg (by omega)).mono (by omega)
  case h_6 h =>
    have h := htail h (by simp)
    exact (parseUnary_consumes hp .not (by omega)).mono (by omega)
  case h_7 h =>
    have h := htail h (by simp)
    exact (parseUnary_consumes hp .bitNot (by omega)).mono (by omega)
  case h_8 => simp [Consumes]

theorem infixPart_consumes (hp : Progress bound exprBp') (minBp : Nat) (fuel : Nat) (lhs : Expr F64)
    {ts : List (Token F64)} (hts : ts.length ≤ bound) (hfuel : ts.length < fuel) :
    Consumes (ts.length + 1) (infixPart exprBp' minBp fuel lhs ts) := by
  induction fuel generalizing lhs ts with
  | zero => omega
  | succ fuel ih =>
    rw [infixPart]
    split
    · exact Nat.lt_succ_self _
    · rename_i op hop
      have htail : ts.tail.length < ts.length := by
        apply tail_length_lt rfl
        intro heof
        rw [heof] at hop
        cases hop
      show Consumes _ (if (infixBp op).1 < minBp then _ else _)
      split_ifs
      · exact Nat.lt_succ_self _
      · refine (hp _ _ (by omega)).bind fun rhs rest hrest => ?_
        exact (ih _ (by omega) (by omega)).mono (by omega)

theorem exprBp_progress (fuel : Nat) : Progress fuel (@exprBp F64 fuel) := by
  induction fuel with
  | zero =>
    intro _ ts h
    omega
  | succ fuel ih =>
    intro minBp ts hts
    refine (prefixPart_consumes ih (by omega)).bind fun lhs rest hrest => ?_
    exact (infixPart_consumes ih minBp _ lhs (by omega) (Nat.lt_succ_self _)).mono (by omega)

/-- A refusal of the parser is never due to the bound on its recursion. -/
theorem parse_total (tokens : List (Token F64)) : parse tokens ≠ .error .outOfFuel := by
  have h := @exprBp_progress F64 (tokens.length + 1) 0 tokens (Nat.lt_succ_self _)
  unfold parse
  cases hr : exprBp (tokens.length + 1) 0 tokens with
  | error e =>
    rw [hr] at h
    intro heq
    exact h (Except.error.inj heq)
  | ok x =>
    show (match peek x.2 with | .eof => _ | t => _) ≠ _
    split <;> simp

/-! ## Variables -/

def collectVariables : Expr F64 → List String → List String
  | .literal _, out => out
  | .var name, out => out ++ [name]
  | .unary _ operand, out => collectVariables operand out
  | .binary _ left right, out => collectVariables right (collectVariables left out)
  | .ite condition thenBranch elseBranch, out =>
    collectVariables elseBranch (collectVariables thenBranch (collectVariables condition out))

def extractVariables (expr : Expr F64) : List String :=
  dedupRuns (sortTexts (collectVariables expr []))

end RcdServer.Calc.Rust
