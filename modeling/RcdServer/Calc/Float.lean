import Mathlib.Algebra.Group.Int.Defs
import Mathlib.Logic.Basic

/-!
# Floating point primitives

Both calculation engines compute with binary64 and binary32 numbers. The primitives stay
abstract and are the same functions on both sides; `FloatOps.Lawful` lists the few facts of
IEEE 754 and of the two languages' conversions that the comparison of the engines rests on.
-/
namespace RcdServer.Calc

class FloatOps (F64 : Type) (F32 : outParam Type) where
  zero : F64
  one : F64
  /-- The comparison tolerance `1e-9`. -/
  epsilon : F64
  /-- `f64::MAX`. -/
  largest : F64
  /-- `f32::MAX`. -/
  largest32 : F32
  add : F64 → F64 → F64
  sub : F64 → F64 → F64
  mul : F64 → F64 → F64
  div : F64 → F64 → F64
  rem : F64 → F64 → F64
  neg : F64 → F64
  neg32 : F32 → F32
  abs : F64 → F64
  trunc : F64 → F64
  lt : F64 → F64 → Bool
  le : F64 → F64 → Bool
  eq : F64 → F64 → Bool
  isNaN : F64 → Bool
  isInf : F64 → Bool
  /-- Nearest binary64 number of an integer. -/
  ofInt64 : Int64 → F64
  ofUInt64 : UInt64 → F64
  /-- The integer part; used on integral values within `[i64::MIN, i64::MAX as f64]`. -/
  toInt64 : F64 → Int64
  /-- The integer part, saturating. -/
  toUInt32 : F64 → UInt32
  widen : F32 → F64
  narrow : F64 → F32
  /-- Nearest number of a decimal text of digits with a point, infinite when out of range. -/
  ofText : String → Option F64
  /-- The text of a number in a message of the Rust engine, and of the manager. -/
  display : F64 → String
  verb : F64 → String

namespace FloatOps

variable {F64 F32 : Type} [FloatOps F64 F32]

def isFinite (x : F64) : Bool := !isNaN x && !isInf x

/-- `f64::clamp`. -/
def clamp (x min max : F64) : F64 :=
  let x := if lt x min then min else x
  if lt max x then max else x

/-- `f64::max`, which ignores a NaN. -/
def fmax (x y : F64) : F64 := if isNaN x then y else if lt x y then y else x

/-- `f32::MAX as f64`. -/
def wideLargest32 : F64 := widen (largest32 F64)

/-- Facts about the primitives; each holds of IEEE 754 arithmetic and Rust's saturating casts. -/
structure Lawful (F64 F32 : Type) [FloatOps F64 F32] : Prop where
  ofInt64_zero : (ofInt64 0 : F64) = zero
  zero_eq_zero : eq (zero : F64) zero = true
  one_ne_zero : ∀ x : F64, eq x one = true → eq x zero = false
  /-- A difference vanishes only between equal numbers. -/
  sub_trunc : ∀ x : F64, isFinite x = true → eq (sub x (trunc x)) zero = eq (trunc x) x
  toUInt32_zero : toUInt32 (zero : F64) = 0
  toUInt32_nan : ∀ x : F64, isNaN x = true → toUInt32 x = 0
  toUInt32_large : ∀ x : F64, lt (ofInt64 0xFFFFFFFF) x = true → toUInt32 x = 0xFFFFFFFF
  narrow_largest32 : narrow (wideLargest32 : F64) = largest32 F64
  narrow_neg_largest32 : narrow (neg (wideLargest32 : F64)) = neg32 F64 (largest32 F64)
  largest32_not_lt : lt (wideLargest32 : F64) (neg wideLargest32) = false

/-- Whole numbers as floats, exact where the real ones are: for running the engines on rules
whose numbers are all integral. -/
instance wholeNumbers : FloatOps Int Int where
  zero := 0
  one := 1
  epsilon := 0
  largest := 2 ^ 1024 - 2 ^ 971
  largest32 := 2 ^ 128 - 2 ^ 104
  add := (· + ·)
  sub := (· - ·)
  mul := (· * ·)
  div := Int.tdiv
  rem := Int.tmod
  neg := (- ·)
  neg32 := (- ·)
  abs := fun x => x.natAbs
  trunc := id
  lt := fun x y => decide (x < y)
  le := fun x y => decide (x ≤ y)
  eq := fun x y => decide (x = y)
  isNaN := fun _ => false
  isInf := fun _ => false
  ofInt64 := Int64.toInt
  ofUInt64 := fun n => n.toNat
  toInt64 := Int64.ofInt
  toUInt32 := fun x => UInt32.ofNat (min x.toNat 0xFFFFFFFF)
  widen := id
  narrow := id
  ofText := fun _ => none
  display := toString
  verb := toString

theorem wholeNumbers_lawful : Lawful Int Int where
  ofInt64_zero := by decide
  zero_eq_zero := by decide
  one_ne_zero := by
    intro x hx
    have : x = 1 := by simpa [eq, one] using hx
    subst this
    decide
  sub_trunc := by
    intro x _
    simp [eq, sub, trunc, zero]
  toUInt32_zero := by decide
  toUInt32_nan := by
    intro x hx
    cases hx
  toUInt32_large := by
    intro x hx
    have hlt : (0xFFFFFFFF : Int64).toInt < x := by simpa [lt, ofInt64] using hx
    have hval : (0xFFFFFFFF : Int64).toInt = 0xFFFFFFFF := by decide
    have hmin : min x.toNat 0xFFFFFFFF = 0xFFFFFFFF := by omega
    simp only [toUInt32, hmin]
    decide
  narrow_largest32 := by rfl
  narrow_neg_largest32 := by rfl
  largest32_not_lt := by decide

end FloatOps

end RcdServer.Calc
