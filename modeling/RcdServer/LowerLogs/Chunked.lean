import RcdServer.Lib.Text
import RcdServer.Tracking.State

/-!
# Chunked replies

`decode_chunked` of `log_push.rs`. The size of a chunk comes from the peer and is added to an offset
before it is compared with what is there. The offsets are machine integers of 64 bits, and a slice
outside its bounds ends the program.
-/
namespace RcdServer.LowerLogs

open Lib.Text
open Tracking (hexDigit)

/-! ## Decoding -/

/-- The position of the first `\r\n`. -/
def findCrlf : List UInt8 → Option Nat
  | [] => none
  | [_] => none
  | a :: b :: rest => if a = 13 ∧ b = 10 then some 0 else (findCrlf (b :: rest)).map (· + 1)

section Line

variable {front line rest : List UInt8}

end Line

/-! ## Encodings -/

def hexValue (digits : List Char) : Nat :=
  digits.foldl (fun acc c => 16 * acc + (hexDigit c).getD 0) 0

/-- A chunk line: a size in hexadecimal digits of either case, and extensions behind a semicolon. -/
structure Announces (line : List UInt8) (size : Nat) : Prop where
  text : ∃ digits extensions, line = (String.ofList (digits ++ extensions)).toByteArray.data.toList ∧
    digits ≠ [] ∧ (∀ c ∈ digits, (hexDigit c).isSome) ∧ hexValue digits = size ∧
    (extensions = [] ∨ extensions.head? = some ';')
  unbroken : findCrlf line = none

structure Chunk where
  line : List UInt8
  data : List UInt8

structure Chunk.Valid (c : Chunk) : Prop where
  nonempty : c.data ≠ []
  announces : Announces c.line c.data.length

def Chunk.wire (c : Chunk) : List UInt8 := c.line ++ 13 :: 10 :: (c.data ++ [13, 10])

/-- The chunks, the line of the zero chunk, and what follows it. -/
def encode (chunks : List Chunk) (last trailer : List UInt8) : List UInt8 :=
  chunks.flatMap Chunk.wire ++ last ++ 13 :: 10 :: trailer

end RcdServer.LowerLogs
