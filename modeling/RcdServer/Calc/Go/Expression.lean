import RcdServer.Calc.Syntax

/-!
# Tokenizer and parser of the manager

`expression.go`, written a second time for the manager. It bounds the number of tokens and
refuses decimal literals outside the range of a float64; otherwise it is meant to read the
same language as the Rust engine.
-/
namespace RcdServer.Calc.Go

open Lib.Text

variable {F64 F32 : Type}

/-! ## Tokens -/

section

variable [FloatOps F64 F32]

def maxTokens : Nat := 8 * 1024

def isASCIIDigit (r : Char) : Bool := decide ('0' ≤ r ∧ r ≤ '9')

def isASCIIAlpha (r : Char) : Bool := decide ('a' ≤ r ∧ r ≤ 'z') || decide ('A' ≤ r ∧ r ≤ 'Z')

/-- `unicode.IsSpace(ch) && ch <= unicode.MaxASCII`. -/
def isSpace (ch : Char) : Bool := isWhiteSpace ch && decide (ch.toNat ≤ 0x7F)

def numberWidth : Bool → List Char → Nat × Bool
  | hasDot, [] => (0, hasDot)
  | hasDot, ch :: rest =>
    if isASCIIDigit ch || ch == '.' then
      if ch == '.' then
        if hasDot then (0, hasDot)
        else
          let more := numberWidth true rest
          (more.1 + 1, more.2)
      else
        let more := numberWidth hasDot rest
        (more.1 + 1, more.2)
    else (0, hasDot)

def identWidth (chars : List Char) : Nat :=
  (chars.takeWhile fun ch => isASCIIAlpha ch || isASCIIDigit ch || ch == '_').length

/-- `strconv.ParseFloat` of a decimal text: a value out of range is an error. -/
def parseFloat (text : String) : Option F64 :=
  match FloatOps.ofText text with
  | some x => if FloatOps.isInf x then none else some x
  | none => none

def numberToken (chars : List Char) : Parse F64 (Token F64 × Nat) :=
  let (width, hasDot) := numberWidth false chars
  if (chars.drop width).head?.any fun ch => isASCIIAlpha ch || ch == '_' then
    let width := width + identWidth (chars.drop width)
    .ok (.ident (String.ofList (chars.take width)), width)
  else
    let text := String.ofList (chars.take width)
    if hasDot then
      match parseFloat text with
      | some value => .ok (.float value, width)
      | none => .error (.badFloat text)
    else
      match parseUnsigned (2 ^ 63 - 1) text with
      | .ok value => .ok (.int (Int64.ofNat value), width)
      | .error _ => .error (.badInt text)

def operatorToken (pos : Nat) (ch : Char) (rest : List Char) : Parse F64 (Token F64 × Nat) :=
  match ch with
  | '+' => .ok (.plus, 1)
  | '-' => .ok (.minus, 1)
  | '*' => .ok (.star, 1)
  | '/' => .ok (.slash, 1)
  | '%' => .ok (.percent, 1)
  | '^' => .ok (.caret, 1)
  | '~' => .ok (.tilde, 1)
  | '(' => .ok (.lparen, 1)
  | ')' => .ok (.rparen, 1)
  | ',' => .ok (.comma, 1)
  | '&' => .ok (if rest.head? = some '&' then (.and, 2) else (.amp, 1))
  | '|' => .ok (if rest.head? = some '|' then (.or, 2) else (.pipe, 1))
  | '!' => .ok (if rest.head? = some '=' then (.notEq, 2) else (.bang, 1))
  | '=' => if rest.head? ≠ some '=' then .error (.loneEquals pos) else .ok (.eq, 2)
  | '<' =>
    .ok (if rest.head? = some '=' then (.ltEq, 2)
      else if rest.head? = some '<' then (.shiftLeft, 2)
      else (.lt, 1))
  | '>' =>
    .ok (if rest.head? = some '=' then (.gtEq, 2)
      else if rest.head? = some '>' then (.shiftRight, 2)
      else (.gt, 1))
  | _ => .error (.illegalChar pos ch)

def nextToken (pos : Nat) (ch : Char) (rest : List Char) : Parse F64 (Token F64 × Nat) :=
  if isASCIIDigit ch || (ch == '.' && rest.head?.any isASCIIDigit) then numberToken (ch :: rest)
  else if isASCIIAlpha ch || ch == '_' then
    let width := identWidth (ch :: rest)
    .ok (.ident (String.ofList ((ch :: rest).take width)), width)
  else operatorToken pos ch rest

/-- `count` tokens have been appended so far; the end mark is not counted. -/
def tokenizeFrom : Nat → Nat → Nat → List Char → Parse F64 (List (Token F64))
  | _, _, _, [] => .ok [.eof]
  | count, pos, skip + 1, _ :: rest => tokenizeFrom count (pos + 1) skip rest
  | count, pos, 0, ch :: rest =>
    if isSpace ch then tokenizeFrom count (pos + 1) 0 rest
    else do
      let (token, width) ← nextToken pos ch rest
      if count + 1 > maxTokens then .error .tooManyTokens
      else
        let tokens ← tokenizeFrom (count + 1) (pos + 1) (width - 1) rest
        .ok (token :: tokens)

def tokenize (input : String) : Parse F64 (List (Token F64)) := tokenizeFrom 0 0 0 input.toList

end

/-! ## Syntax trees -/

def peek : List (Token F64) → Token F64
  | [] => .eof
  | t :: _ => t

def tokenBinary : Token F64 → Option BinOp
  | .plus => some .add
  | .minus => some .sub
  | .star => some .mul
  | .slash => some .div
  | .percent => some .mod
  | .amp => some .bitAnd
  | .pipe => some .bitOr
  | .caret => some .bitXor
  | .shiftLeft => some .shiftLeft
  | .shiftRight => some .shiftRight
  | .and => some .and
  | .or => some .or
  | .eq => some .eq
  | .notEq => some .notEq
  | .lt => some .lt
  | .gt => some .gt
  | .ltEq => some .ltEq
  | .gtEq => some .gtEq
  | _ => none

def bindingPower : BinOp → Nat × Nat
  | .or => (2, 3)
  | .and => (4, 5)
  | .bitOr => (6, 7)
  | .bitXor => (8, 9)
  | .bitAnd => (10, 11)
  | .eq | .notEq => (12, 13)
  | .lt | .gt | .ltEq | .gtEq => (14, 15)
  | .shiftLeft | .shiftRight => (16, 17)
  | .add | .sub => (18, 19)
  | _ => (20, 21)

/-- `strings.EqualFold` on identifiers, which are ASCII. -/
def equalFold (a b : String) : Bool := asciiLower a == asciiLower b

def parseIf (parse : Nat → List (Token F64) → Parse F64 (Rest F64)) (ts : List (Token F64)) :
    Parse F64 (Rest F64) :=
  match peek ts with
  | .lparen => do
    let (condition, ts) ← parse 0 ts.tail
    match peek ts with
    | .comma => do
      let (thenBranch, ts) ← parse 0 ts.tail
      match peek ts with
      | .comma => do
        let (elseBranch, ts) ← parse 0 ts.tail
        match peek ts with
        | .rparen => .ok (.ite condition thenBranch elseBranch, ts.tail)
        | _ => .error .ifMissingRParen
      | _ => .error .ifMissingSecondComma
    | _ => .error .ifMissingFirstComma
  | _ => .error .ifMissingLParen

/-- The operand of `-`, `!` or `~`. -/
def parseUnary (parse : Nat → List (Token F64) → Parse F64 (Rest F64)) (op : UnaryOp)
    (ts : List (Token F64)) : Parse F64 (Rest F64) := do
  let (operand, ts) ← parse 23 ts
  .ok (.unary op operand, ts)

/-- The switch of `parse` on its first token. -/
def parseLeft (parse : Nat → List (Token F64) → Parse F64 (Rest F64)) (ts : List (Token F64)) :
    Parse F64 (Rest F64) :=
  match peek ts with
  | .int n => .ok (.literal (.int n), ts.tail)
  | .float x => .ok (.literal (.float x), ts.tail)
  | .ident name =>
    if equalFold name "true" then .ok (.literal (.bool true), ts.tail)
    else if equalFold name "false" then .ok (.literal (.bool false), ts.tail)
    else
      match equalFold name "if", peek ts.tail with
      | true, .lparen => parseIf parse ts.tail
      | _, _ => .ok (.var name, ts.tail)
  | .lparen => do
    let (inner, ts) ← parse 0 ts.tail
    match peek ts with
    | .rparen => .ok (inner, ts.tail)
    | _ => .error .missingRParen
  | .minus => parseUnary parse .neg ts.tail
  | .bang => parseUnary parse .not ts.tail
  | .tilde => parseUnary parse .bitNot ts.tail
  | t => .error (.expectedExpression t)

/-- The loop of `parse` over binary operators. -/
def parseOperators (parse : Nat → List (Token F64) → Parse F64 (Rest F64)) (minBP : Nat) :
    Nat → Expr F64 → List (Token F64) → Parse F64 (Rest F64)
  | 0, _, _ => .error .outOfFuel
  | fuel + 1, left, ts =>
    match peek ts with
    | .eof | .rparen | .comma => .ok (left, ts)
    | t =>
      match tokenBinary t with
      | none => .ok (left, ts)
      | some op =>
        let (lbp, rbp) := bindingPower op
        if lbp < minBP then .ok (left, ts)
        else do
          let (right, ts) ← parse rbp ts.tail
          parseOperators parse minBP fuel (.binary op left right) ts

def parse : Nat → Nat → List (Token F64) → Parse F64 (Rest F64)
  | 0, _, _ => .error .outOfFuel
  | fuel + 1, minBP, ts => do
    let (left, ts) ← parseLeft (parse fuel) ts
    parseOperators (parse fuel) minBP (ts.length + 1) left ts

/-! ## Variables -/

/-- The set is a list without repetitions; sorting makes its order irrelevant. -/
def collectVariables : Expr F64 → List String → List String
  | .literal _, output => output
  | .var name, output => if name ∈ output then output else name :: output
  | .unary _ operand, output => collectVariables operand output
  | .binary _ left right, output => collectVariables right (collectVariables left output)
  | .ite condition thenBranch elseBranch, output =>
    collectVariables elseBranch (collectVariables thenBranch (collectVariables condition output))

/-- Whether evaluation can look at a name. -/
def Mentions (name : String) : Expr F64 → Prop
  | .literal _ => False
  | .var v => v = name
  | .unary _ operand => Mentions name operand
  | .binary _ left right => Mentions name left ∨ Mentions name right
  | .ite condition thenBranch elseBranch =>
    Mentions name condition ∨ Mentions name thenBranch ∨ Mentions name elseBranch

theorem mem_collectVariables (e : Expr F64) (output : List String) (name : String) :
    name ∈ collectVariables e output ↔ name ∈ output ∨ Mentions name e := by
  induction e generalizing output with
  | literal v => simp [collectVariables, Mentions]
  | var v =>
    by_cases h : v ∈ output
    · simp only [collectVariables, h, if_true, Mentions]
      constructor
      · exact Or.inl
      · rintro (hin | rfl)
        · exact hin
        · exact h
    · simp only [collectVariables, h, if_false, Mentions, List.mem_cons]
      rw [eq_comm, or_comm]
  | unary op operand ih => simp [collectVariables, Mentions, ih]
  | binary op left right ihl ihr => simp [collectVariables, Mentions, ihl, ihr, or_assoc]
  | ite c t e ihc iht ihe => simp [collectVariables, Mentions, ihc, iht, ihe, or_assoc]

theorem nodup_collectVariables (e : Expr F64) {output : List String} (h : output.Nodup) :
    (collectVariables e output).Nodup := by
  induction e generalizing output with
  | literal v => exact h
  | var v =>
    by_cases hv : v ∈ output
    · simpa [collectVariables, hv] using h
    · simpa [collectVariables, hv] using h
  | unary op operand ih => exact ih h
  | binary op left right ihl ihr => exact ihr (ihl h)
  | ite c t e ihc iht ihe => exact ihe (iht (ihc h))

variable [FloatOps F64 F32]

def parseExpression (text : String) : Parse F64 (Expr F64 × List String) := do
  let tokens ← tokenize text
  let (ast, rest) ← parse (tokens.length + 1) 0 tokens
  match peek rest with
  | .eof => .ok (ast, sortTexts (collectVariables ast []))
  | t => .error (.extraToken t)

/-- The variables of an accepted expression are those it mentions, each listed once. -/
theorem parseExpression_variables {text : String} {ast : Expr F64} {vars : List String}
    (h : parseExpression text = .ok (ast, vars)) :
    vars.Nodup ∧ ∀ name, name ∈ vars ↔ Mentions name ast := by
  have heq : vars = sortTexts (collectVariables ast []) := by
    unfold parseExpression at h
    simp only [bind, Except.bind] at h
    split at h
    · cases h
    · split at h
      · cases h
      · split at h
        · cases h
          rfl
        · cases h
  subst heq
  refine ⟨nodup_sortTexts (nodup_collectVariables ast List.nodup_nil), fun name => ?_⟩
  rw [mem_sortTexts, mem_collectVariables]
  simp

end RcdServer.Calc.Go
