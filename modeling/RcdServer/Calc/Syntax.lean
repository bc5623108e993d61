import RcdServer.Calc.Float
import RcdServer.Lib.Text

/-!
# The expression language

Tokens, operators and syntax trees of calculation rules. The Rust engine and the Go
manager each have their own tokenizer, parser and evaluator for this one language.
-/
namespace RcdServer.Calc

/-- `EvalValue` and `evalValue`, also the literals of an expression. -/
inductive EvalValue (F64 : Type) where
  | int (n : Int64)
  | bool (b : Bool)
  | float (x : F64)
  deriving DecidableEq

/-- `Token` and the kinds of `token` with their payload. -/
inductive Token (F64 : Type) where
  | int (n : Int64)
  | float (x : F64)
  | ident (name : String)
  | plus | minus | star | slash | percent
  | amp | pipe | caret | tilde | shiftLeft | shiftRight
  | and | or | bang
  | eq | notEq | lt | gt | ltEq | gtEq
  | lparen | rparen | comma
  | eof
  deriving DecidableEq

inductive BinOp where
  | add | sub | mul | div | mod
  | bitAnd | bitOr | bitXor | shiftLeft | shiftRight
  | and | or
  | eq | notEq | lt | gt | ltEq | gtEq
  deriving DecidableEq

inductive UnaryOp where
  | neg | not | bitNot
  deriving DecidableEq

inductive Expr (F64 : Type) where
  | literal (value : EvalValue F64)
  | var (name : String)
  | unary (op : UnaryOp) (operand : Expr F64)
  | binary (op : BinOp) (left right : Expr F64)
  | ite (condition thenBranch elseBranch : Expr F64)
  deriving DecidableEq

/-- What a tokenizer or a parser refuses, with the data its message shows. -/
inductive SyntaxError (F64 : Type) where
  | illegalChar (pos : Nat) (ch : Char)
  | loneEquals (pos : Nat)
  | badFloat (text : String)
  | badInt (text : String)
  | tooManyTokens
  | expectedExpression (found : Token F64)
  | missingRParen
  | ifMissingLParen
  | ifMissingFirstComma
  | ifMissingSecondComma
  | ifMissingRParen
  | extraToken (found : Token F64)
  /-- The bound of the model's recursion; never reached. -/
  | outOfFuel
  deriving DecidableEq

abbrev Parse (F64 : Type) := Except (SyntaxError F64)

/-- A tree and the tokens behind it. -/
abbrev Rest (F64 : Type) := Expr F64 × List (Token F64)

/-- One `[[rules]]` table of `calc.toml`; the limits and the default may be absent. -/
structure RawRule (F64 : Type) where
  kksCalc : String
  dataType : String
  expression : String
  maxLimit : Option F64
  minLimit : Option F64
  defaultValue : Option F64
  deriving DecidableEq

end RcdServer.Calc
