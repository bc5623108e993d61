import Mathlib.Algebra.Order.Group.Unbundled.Int
import Mathlib.Tactic.Linarith
import RcdServer.Calc.Go.Evaluate
import RcdServer.Calc.Rust.Evaluator

/-!
# The two evaluators

Checked arithmetic, operators and evaluation of the Rust engine and of the manager, compared
case by case. They give the same value or both fail, unless a shift by at least `2 ^ 32`
is executed: the Rust engine keeps only the low 32 bits of the count before it limits it.
-/
namespace RcdServer.Calc

/-! ## Checked arithmetic -/

theorem toInt_bounds (a : Int64) : -2 ^ 63 ≤ a.toInt ∧ a.toInt < 2 ^ 63 :=
  ⟨Int64.le_toInt a, Int64.toInt_lt a⟩

theorem toInt_wrap {n : Int} (h : -2 ^ 63 ≤ n ∧ n < 2 ^ 63) : n.bmod (2 ^ 64) = n := by
  apply Int.bmod_eq_of_le <;> omega

theorem checked_eq_some {n : Int} (h : -2 ^ 63 ≤ n ∧ n < 2 ^ 63) :
    Rust.checked n = some (Int64.ofInt n) := by
  have hmin : Int64.minValue.toInt = -2 ^ 63 := by decide
  have hmax : Int64.maxValue.toInt = 2 ^ 63 - 1 := by decide
  rw [Rust.checked, if_pos]
  rw [hmin, hmax]
  omega

theorem checked_eq_none {n : Int} (h : ¬ (-2 ^ 63 ≤ n ∧ n < 2 ^ 63)) : Rust.checked n = none := by
  have hmin : Int64.minValue.toInt = -2 ^ 63 := by decide
  have hmax : Int64.maxValue.toInt = 2 ^ 63 - 1 := by decide
  rw [Rust.checked, if_neg]
  rw [hmin, hmax]
  omega

theorem checkedAdd_eq (a b : Int64) : Go.checkedAdd a b = Rust.checked (a.toInt + b.toInt) := by
  have ha := toInt_bounds a
  have hb := toInt_bounds b
  have hmin : Int64.minValue.toInt = -2 ^ 63 := by decide
  have hmax : Int64.maxValue.toInt = 2 ^ 63 - 1 := by decide
  unfold Go.checkedAdd
  by_cases hfit : -2 ^ 63 ≤ a.toInt + b.toInt ∧ a.toInt + b.toInt < 2 ^ 63
  · rw [checked_eq_some hfit, if_neg]
    · rw [Int64.ofInt_add, Int64.ofInt_toInt, Int64.ofInt_toInt]
    · rintro (⟨hpos, hgt⟩ | ⟨hneg, hlt⟩)
      · have hpos : 0 < b.toInt := by simpa [Int64.lt_iff_toInt_lt] using hpos
        rw [gt_iff_lt, Int64.lt_iff_toInt_lt, Int64.toInt_sub, hmax, toInt_wrap (by omega)] at hgt
        omega
      · have hneg : b.toInt < 0 := by simpa [Int64.lt_iff_toInt_lt] using hneg
        rw [Int64.lt_iff_toInt_lt, Int64.toInt_sub, hmin, toInt_wrap (by omega)] at hlt
        omega
  · rw [checked_eq_none hfit, if_pos]
    rcases lt_or_ge 0 b.toInt with hpos | hneg
    · left
      refine ⟨by simpa [Int64.lt_iff_toInt_lt] using hpos, ?_⟩
      rw [gt_iff_lt, Int64.lt_iff_toInt_lt, Int64.toInt_sub, hmax, toInt_wrap (by omega)]
      omega
    · right
      have hneg : b.toInt < 0 := by omega
      refine ⟨by simpa [Int64.lt_iff_toInt_lt] using hneg, ?_⟩
      rw [Int64.lt_iff_toInt_lt, Int64.toInt_sub, hmin, toInt_wrap (by omega)]
      omega

theorem checkedSub_eq (a b : Int64) : Go.checkedSub a b = Rust.checked (a.toInt - b.toInt) := by
  have ha := toInt_bounds a
  have hb := toInt_bounds b
  have hmin : Int64.minValue.toInt = -2 ^ 63 := by decide
  have hmax : Int64.maxValue.toInt = 2 ^ 63 - 1 := by decide
  unfold Go.checkedSub
  by_cases hfit : -2 ^ 63 ≤ a.toInt - b.toInt ∧ a.toInt - b.toInt < 2 ^ 63
  · rw [checked_eq_some hfit, if_neg]
    · rw [Int64.ofInt_sub, Int64.ofInt_toInt, Int64.ofInt_toInt]
    · rintro (⟨hneg, hgt⟩ | ⟨hpos, hlt⟩)
      · have hneg : b.toInt < 0 := by simpa [Int64.lt_iff_toInt_lt] using hneg
        rw [gt_iff_lt, Int64.lt_iff_toInt_lt, Int64.toInt_add, hmax, toInt_wrap (by omega)] at hgt
        omega
      · have hpos : 0 < b.toInt := by simpa [Int64.lt_iff_toInt_lt] using hpos
        rw [Int64.lt_iff_toInt_lt, Int64.toInt_add, hmin, toInt_wrap (by omega)] at hlt
        omega
  · rw [checked_eq_none hfit, if_pos]
    rcases lt_or_ge b.toInt 0 with hneg | hpos
    · left
      refine ⟨by simpa [Int64.lt_iff_toInt_lt] using hneg, ?_⟩
      rw [gt_iff_lt, Int64.lt_iff_toInt_lt, Int64.toInt_add, hmax, toInt_wrap (by omega)]
      omega
    · right
      have hpos : 0 < b.toInt := by omega
      refine ⟨by simpa [Int64.lt_iff_toInt_lt] using hpos, ?_⟩
      rw [Int64.lt_iff_toInt_lt, Int64.toInt_add, hmin, toInt_wrap (by omega)]
      omega

/-- Dividing a wrapped product by one factor gives back the other only if it did not wrap. -/
theorem wrapped_product {a b : Int} (hb : -2 ^ 63 ≤ b ∧ b < 2 ^ 63)
    (hb0 : b ≠ 0) (hdiv : ((a * b).bmod (2 ^ 64)).tdiv b = a) :
    -2 ^ 63 ≤ a * b ∧ a * b < 2 ^ 63 := by
  generalize hv : (a * b).bmod (2 ^ 64) = v at hdiv
  have hrange : -2 ^ 63 ≤ v ∧ v < 2 ^ 63 := by
    rw [← hv]
    constructor
    · have := Int.le_bmod (x := a * b) (m := 2 ^ 64) (by decide)
      omega
    · have := Int.bmod_lt (x := a * b) (m := 2 ^ 64) (by decide)
      omega
  have hsplit : b * a + v.tmod b = v := by
    have := Int.mul_tdiv_add_tmod v b
    rwa [hdiv] at this
  have hrem : |v.tmod b| < |b| := by
    rw [Int.abs_eq_natAbs, Int.abs_eq_natAbs, Int.natAbs_tmod]
    exact_mod_cast Nat.mod_lt _ (Int.natAbs_pos.mpr hb0)
  have hk : ∃ k, a * b = v + 2 ^ 64 * k := by
    have hmod : a * b % (2 ^ 64 : Nat) = v % (2 ^ 64 : Nat) := by rw [← hv, Int.bmod_emod]
    have hdvd := Int.emod_eq_emod_iff_emod_sub_eq_zero.mp hmod
    obtain ⟨k, hk⟩ := Int.dvd_of_emod_eq_zero hdvd
    exact ⟨k, by push_cast at hk; omega⟩
  obtain ⟨k, hk⟩ := hk
  have hcomm : b * a = a * b := Int.mul_comm b a
  have habs : |b| ≤ 2 ^ 63 := abs_le.mpr ⟨by omega, by omega⟩
  have hlt := abs_lt.mp (lt_of_lt_of_le hrem habs)
  have hk0 : k = 0 := by omega
  omega

theorem checkedMul_eq (a b : Int64) : Go.checkedMul a b = Rust.checked (a.toInt * b.toInt) := by
  have ha := toInt_bounds a
  have hb := toInt_bounds b
  have hmin : Int64.minValue.toInt = -2 ^ 63 := by decide
  unfold Go.checkedMul
  by_cases hzero : a = 0 ∨ b = 0
  · have hprod : a.toInt * b.toInt = 0 := by
      rcases hzero with rfl | rfl <;> simp
    rw [if_pos hzero, hprod]
    decide
  rw [if_neg hzero]
  push Not at hzero
  have hb0 : b.toInt ≠ 0 := fun h => hzero.2 (Int64.toInt_inj.mp h)
  by_cases hspecial : (a = -1 ∧ b = Int64.minValue) ∨ (b = -1 ∧ a = Int64.minValue)
  · rw [if_pos hspecial, checked_eq_none]
    rcases hspecial with ⟨rfl, rfl⟩ | ⟨rfl, rfl⟩ <;> decide
  rw [if_neg hspecial]
  have hquot : (a * b / b).toInt = ((a.toInt * b.toInt).bmod (2 ^ 64)).tdiv b.toInt := by
    rw [← Int64.toInt_mul]
    by_cases hone : b = -1
    · -- The product is then the negation of `a`, which is not the least number.
      apply Int64.toInt_div_of_ne_left
      intro hprod
      have hneg : -a = Int64.minValue := by
        rw [← hprod, hone]
        rw [Int64.mul_neg, Int64.mul_one]
      apply hspecial
      right
      refine ⟨hone, ?_⟩
      have hback : a = - Int64.minValue := by rw [← hneg, Int64.neg_neg]
      rw [hback]
      decide
    · exact Int64.toInt_div_of_ne_right _ _ hone
  by_cases hfit : -2 ^ 63 ≤ a.toInt * b.toInt ∧ a.toInt * b.toInt < 2 ^ 63
  · rw [checked_eq_some hfit, if_pos]
    · rw [Int64.ofInt_mul, Int64.ofInt_toInt, Int64.ofInt_toInt]
    · rw [← Int64.toInt_inj, hquot, toInt_wrap hfit, Int.mul_tdiv_cancel _ hb0]
  · rw [checked_eq_none hfit, if_neg]
    intro heq
    rw [← Int64.toInt_inj, hquot] at heq
    exact hfit (wrapped_product hb hb0 heq)

theorem checkedNeg_eq (a : Int64) :
    Rust.checked (-a.toInt) = if a = Int64.minValue then none else some (-a) := by
  have ha := toInt_bounds a
  have hmin : Int64.minValue.toInt = -2 ^ 63 := by decide
  by_cases h : a = Int64.minValue
  · rw [if_pos h, h]
    decide
  · have hne : a.toInt ≠ -2 ^ 63 := fun heq => h (Int64.toInt_inj.mp (heq.trans hmin.symm))
    rw [if_neg h, checked_eq_some (by omega), Int64.ofInt_neg, Int64.ofInt_toInt]

/-! ## Operators -/

section
variable {F64 F32 : Type} [FloatOps F64 F32]

theorem asFloat_eq (v : EvalValue F64) : Go.asFloat v = Rust.asF64 v := by
  cases v <;> rfl

theorem isFloat_eq (v : EvalValue F64) : Go.isFloat v = Rust.isFloat v := by
  cases v <;> rfl

theorem equalValues_eq (l r : EvalValue F64) : Go.equalValues l r = Rust.eqValues l r := by
  cases l <;> cases r <;> rfl

/-- The two engines agree on which values are integers and on the integer. -/
theorem asInteger_cases (laws : FloatOps.Lawful F64 F32) (v : EvalValue F64) :
    (∃ n, Rust.asIntForIntegerOp v = .ok n ∧ Go.asInteger v = .ok n) ∨
      ∃ e e', Rust.asIntForIntegerOp v = .error e ∧ Go.asInteger v = .error e' := by
  cases v with
  | int n => exact .inl ⟨n, rfl, rfl⟩
  | bool b => exact .inl ⟨_, rfl, rfl⟩
  | float x =>
    cases hfin : FloatOps.isFinite x with
    | false =>
      have hbad : (FloatOps.isNaN x || FloatOps.isInf x) = true := by
        rw [FloatOps.isFinite] at hfin
        cases hn : FloatOps.isNaN x <;> simp_all
      simp only [Rust.asIntForIntegerOp, Go.asInteger, hfin, hbad]
      exact .inr ⟨_, _, rfl, rfl⟩
    | true =>
      have hgood : (FloatOps.isNaN x || FloatOps.isInf x) = false := by
        rw [FloatOps.isFinite] at hfin
        cases hn : FloatOps.isNaN x <;> simp_all
      have hfract : FloatOps.eq (Rust.fract x) FloatOps.zero = FloatOps.eq (FloatOps.trunc x) x :=
        laws.sub_trunc x hfin
      simp only [Rust.asIntForIntegerOp, Go.asInteger, hfin, hgood, hfract]
      cases FloatOps.eq (FloatOps.trunc x) x with
      | false => exact .inr ⟨_, _, rfl, rfl⟩
      | true =>
        simp only [Bool.not_true, Bool.false_or, Bool.false_eq_true, if_false]
        split_ifs
        · exact .inr ⟨_, _, rfl, rfl⟩
        · exact .inl ⟨_, rfl, rfl⟩

theorem evalUnary_agree (laws : FloatOps.Lawful F64 F32) (op : UnaryOp) (v : EvalValue F64) :
    (Rust.evalUnary op v).toOption = (Go.evalUnary op v).toOption := by
  cases op with
  | not => rfl
  | bitNot =>
    rcases asInteger_cases laws v with ⟨n, hr, hg⟩ | ⟨e, e', hr, hg⟩
    · simp only [Rust.evalUnary, Go.evalUnary, hr, hg, bind, Except.bind]
      rfl
    · simp only [Rust.evalUnary, Go.evalUnary, hr, hg, bind, Except.bind]
      rfl
  | neg =>
    have hint : ∀ n : Int64, (Rust.orOverflow "整数取反溢出" (Rust.checked (-n.toInt)) :
        Rust.Eval (EvalValue F64)).toOption =
        (if n = Int64.minValue then .error "integer negation overflow"
          else .ok (.int (-n)) : Except String (EvalValue F64)).toOption := by
      intro n
      rw [checkedNeg_eq]
      split_ifs <;> rfl
    cases v with
    | float x => rfl
    | int n => exact hint n
    | bool b => exact hint (if b then 1 else 0)

/-- A shift count of which the low 32 bits alone are a smaller shift. -/
def wideCount (n : Int64) : Bool := decide (2 ^ 32 ≤ n.toInt ∧ n.toInt % 2 ^ 32 < 63)

/-- The shifts on which the engines differ: both operands are integers, the count is wide. -/
def wideShift (op : BinOp) (l r : EvalValue F64) : Bool :=
  match op, Go.asInteger l, Go.asInteger r with
  | .shiftLeft, .ok _, .ok n => wideCount n
  | .shiftRight, .ok _, .ok n => wideCount n
  | _, _, _ => false

omit [FloatOps F64 F32] in
theorem shiftCount_eq {n : Int64} (hpos : ¬ n < 0) (hwide : wideCount n = false) :
    Int64.ofNat (min (n.toInt.toNat % 2 ^ 32) 63) = if n > 63 then 63 else n := by
  have hn : 0 ≤ n.toInt := by
    rw [Int64.lt_iff_toInt_lt] at hpos
    simpa using hpos
  have hgt : n > 63 ↔ 63 < n.toInt := by
    rw [gt_iff_lt, Int64.lt_iff_toInt_lt]
    rfl
  have hlow : ¬ (2 ^ 32 ≤ n.toInt ∧ n.toInt % 2 ^ 32 < 63) := by simpa [wideCount] using hwide
  by_cases hbig : n > 63
  · have hmin : min (n.toInt.toNat % 2 ^ 32) 63 = 63 := by
      rw [hgt] at hbig
      omega
    rw [if_pos hbig, hmin]
    rfl
  · have hmin : min (n.toInt.toNat % 2 ^ 32) 63 = n.toInt.toNat := by
      rw [hgt] at hbig
      omega
    rw [if_neg hbig, hmin, ← Int64.toInt_inj, Int64.toInt_ofNat_of_lt (by rw [hgt] at hbig; omega)]
    omega

theorem evalShift_agree (laws : FloatOps.Lawful F64 F32) (onInts : Int64 → Int64 → Int64)
    (l r : EvalValue F64)
    (hwide : ∀ a n, Go.asInteger l = .ok a → Go.asInteger r = .ok n → wideCount n = false) :
    (Rust.evalShift onInts l r).toOption = (Go.evalBits (Go.evalShift onInts) l r).toOption := by
  unfold Rust.evalShift Go.evalBits
  rcases asInteger_cases laws l with ⟨a, hrl, hgl⟩ | ⟨e, e', hrl, hgl⟩ <;>
    rcases asInteger_cases laws r with ⟨n, hrr, hgr⟩ | ⟨e, e', hrr, hgr⟩ <;>
    simp only [hrl, hgl, hrr, hgr, bind, Except.bind]
  · unfold Rust.checkedShift Go.evalShift
    by_cases hneg : n < 0
    · simp [hneg, Except.toOption]
    · simp only [if_neg hneg, shiftCount_eq hneg (hwide a n hgl hgr)]
      rfl
  · rfl
  · unfold Rust.checkedShift
    by_cases hneg : n < 0 <;> simp [hneg, Except.toOption]
  · rfl

/-- The wide counts are exactly those by which the engines shift some value differently. -/
theorem shiftLeft_agree_iff (laws : FloatOps.Lawful F64 F32) (n : Int64) :
    (∀ l : EvalValue F64, (Rust.evalBinary .shiftLeft l (.int n)).toOption =
      (Go.evalBinary .shiftLeft l (.int n)).toOption) ↔ wideCount n = false := by
  constructor
  · intro h
    by_contra hwide
    have hwide : 2 ^ 32 ≤ n.toInt ∧ n.toInt % 2 ^ 32 < 63 := by simpa [wideCount] using hwide
    have hpos : ¬ n < 0 := by
      rw [Int64.lt_iff_toInt_lt, Int64.toInt_zero]
      omega
    have hbig : n > 63 := by
      rw [gt_iff_lt, Int64.lt_iff_toInt_lt]
      show 63 < n.toInt
      omega
    have hlow : n.toInt.toNat % 2 ^ 32 < 63 := by omega
    have hne : ∀ k < 63, (1 : Int64) <<< Int64.ofNat k ≠ (1 : Int64) <<< (63 : Int64) := by
      decide
    have hone := h (.int 1)
    simp only [Rust.evalBinary, Rust.evalShift, Rust.asIntForIntegerOp, Rust.checkedShift,
      Go.evalBinary, Go.evalBits, Go.evalShift, Go.asInteger, bind, Except.bind, if_neg hpos,
      if_pos hbig, Nat.min_eq_left hlow.le, Except.toOption, Option.some.injEq,
      EvalValue.int.injEq] at hone
    exact hne _ hlow hone
  · intro hwide l
    apply evalShift_agree laws
    intro a m _ hm
    cases hm
    exact hwide

/-- The shift count that both engines mean. -/
def clampedCount (n : Int64) : Nat := min n.toInt.toNat 63

variable (F64) in
/-- A shift of `a` by `n`, by whatever expressions the two are given: it fails for a negative
count and shifts by the limited count otherwise, in both engines. -/
structure ShiftClamped (op : BinOp) (onInts : Int64 → Int64 → Int64) (a n : Int64) : Prop where
  fails : n < 0 → ∀ (vars : Rust.Variables F64) (l r : Expr F64),
    Rust.evaluate vars l = .ok (.int a) → Rust.evaluate vars r = .ok (.int n) →
    ∃ e, Rust.evaluate vars (.binary op l r) = .error e
  amount : ¬ n < 0 → Rust.checkedShift n = .ok (clampedCount n)
  value : ¬ n < 0 → ∀ (vars : Rust.Variables F64) (l r : Expr F64),
    Rust.evaluate vars l = .ok (.int a) → Rust.evaluate vars r = .ok (.int n) →
    Rust.evaluate vars (.binary op l r) = .ok (.int (onInts a (Int64.ofNat (clampedCount n))))
  manager : ¬ n < 0 → Go.evalBinary op (.int a : EvalValue F64) (.int n) =
    .ok (.int (onInts a (Int64.ofNat (clampedCount n))))

omit [FloatOps F64 F32] in
theorem narrowedCount_iff {n : Int64} (hpos : ¬ n < 0) :
    min (n.toInt.toNat % 2 ^ 32) 63 = clampedCount n ↔ wideCount n = false := by
  have hn : 0 ≤ n.toInt := by
    rw [Int64.lt_iff_toInt_lt] at hpos
    simpa using hpos
  have hwide : wideCount n = false ↔ ¬ (2 ^ 32 ≤ n.toInt ∧ n.toInt % 2 ^ 32 < 63) := by
    simp only [wideCount, decide_eq_false_iff_not]
  rw [hwide, clampedCount]
  omega

theorem shiftClamped_of_narrow {op : BinOp} {onInts : Int64 → Int64 → Int64} {a n : Int64}
    (hrust : Rust.evalBinary op = (Rust.evalShift onInts : EvalValue F64 → _))
    (hgo : Go.evalBinary op = (Go.evalBits (Go.evalShift onInts) : EvalValue F64 → _))
    (hand : op ≠ .and) (hor : op ≠ .or) (hwide : wideCount n = false) :
    ShiftClamped F64 op onInts a n := by
  have hrun : ∀ (vars : Rust.Variables F64) (l r : Expr F64),
      Rust.evaluate vars l = .ok (.int a) → Rust.evaluate vars r = .ok (.int n) →
      Rust.evaluate vars (.binary op l r) =
        (Rust.checkedShift n).map fun k => .int (onInts a (Int64.ofNat k)) := by
    intro vars l r hl hr
    rw [Rust.evaluate, hl, hr]
    · simp only [bind, Except.bind, hrust, Rust.evalShift, Rust.asIntForIntegerOp]
      cases Rust.checkedShift n <;> rfl
    · exact hand
    · exact hor
  have hamount : ¬ n < 0 → Rust.checkedShift n = .ok (clampedCount n) := by
    intro hpos
    rw [Rust.checkedShift, if_neg hpos, (narrowedCount_iff hpos).mpr hwide]
  refine ⟨fun hneg vars l r hl hr => ?_, hamount, fun hpos vars l r hl hr => ?_, fun hpos => ?_⟩
  · rw [hrun vars l r hl hr, Rust.checkedShift, if_pos hneg]
    exact ⟨_, rfl⟩
  · rw [hrun vars l r hl hr, hamount hpos]
    rfl
  · have hcount : Int64.ofNat (clampedCount n) = if n > 63 then 63 else n := by
      rw [← (narrowedCount_iff hpos).mpr hwide]
      exact shiftCount_eq hpos hwide
    simp only [hgo, Go.evalBits, Go.asInteger, bind, Except.bind, Go.evalShift, if_neg hpos, hcount]

/-- Every shift is by the limited count, unless only the low 32 bits of a count from `2 ^ 32` on
are a smaller one. -/
theorem shifts_clamped_iff (a n : Int64) :
    (ShiftClamped F64 .shiftLeft (· <<< ·) a n ∧ ShiftClamped F64 .shiftRight (· >>> ·) a n) ↔
      wideCount n = false := by
  constructor
  · rintro ⟨hleft, _⟩
    by_contra hwide
    have hbounds : 2 ^ 32 ≤ n.toInt ∧ n.toInt % 2 ^ 32 < 63 := by simpa [wideCount] using hwide
    have hpos : ¬ n < 0 := by
      rw [Int64.lt_iff_toInt_lt, Int64.toInt_zero]
      omega
    have hcount := hleft.amount hpos
    rw [Rust.checkedShift, if_neg hpos] at hcount
    injection hcount with hcount
    exact hwide ((narrowedCount_iff hpos).mp hcount)
  · intro hwide
    constructor
    · exact shiftClamped_of_narrow rfl rfl (by decide) (by decide) hwide
    · exact shiftClamped_of_narrow rfl rfl (by decide) (by decide) hwide

/-- `1 << 4294967296` is 1 for the Rust engine; the shift by 63 gives the least number. -/
theorem shift_by_narrowed_count :
    Rust.evaluate (fun _ => none : Rust.Variables Int)
      (.binary .shiftLeft (.literal (.int 1)) (.literal (.int 4294967296))) = .ok (.int 1) ∧
    (1 : Int64) <<< Int64.ofNat (clampedCount 4294967296) = Int64.minValue ∧
    ¬ ShiftClamped Int .shiftLeft (· <<< ·) 1 4294967296 := by
  refine ⟨by decide, by decide, fun h => ?_⟩
  have hcount := h.amount (by decide)
  exact absurd hcount (by decide)

theorem evalArith_agree (laws : FloatOps.Lawful F64 F32) {onFloats : F64 → F64 → F64}
    {onInts : Int → Int → Int} {checkedOp : Int64 → Int64 → Option Int64} (m m' : String)
    (hop : ∀ a b, checkedOp a b = Rust.checked (onInts a.toInt b.toInt)) (l r : EvalValue F64) :
    (Rust.evalArith onFloats onInts m l r).toOption =
      (Go.evalArith onFloats checkedOp m' l r).toOption := by
  unfold Rust.evalArith Go.evalArith
  rw [isFloat_eq, isFloat_eq, asFloat_eq, asFloat_eq]
  split_ifs
  · rfl
  · rcases asInteger_cases laws l with ⟨a, hrl, hgl⟩ | ⟨e, e', hrl, hgl⟩ <;>
      rcases asInteger_cases laws r with ⟨n, hrr, hgr⟩ | ⟨e, e', hrr, hgr⟩ <;>
      simp only [hrl, hgl, hrr, hgr, bind, Except.bind] <;> try rfl
    rw [hop]
    cases Rust.checked (onInts a.toInt n.toInt) <;> rfl

theorem evalBits_agree (laws : FloatOps.Lawful F64 F32) (onInts : Int64 → Int64 → Int64)
    (l r : EvalValue F64) :
    (Rust.evalBits onInts l r).toOption =
      (Go.evalBits (fun li ri => .ok (onInts li ri)) l r).toOption := by
  unfold Rust.evalBits Go.evalBits
  rcases asInteger_cases laws l with ⟨a, hrl, hgl⟩ | ⟨e, e', hrl, hgl⟩ <;>
    rcases asInteger_cases laws r with ⟨n, hrr, hgr⟩ | ⟨e, e', hrr, hgr⟩ <;>
    simp only [hrl, hgl, hrr, hgr, bind, Except.bind] <;> rfl

/-- A divisor that passes the test for zero is not the integer zero. -/
theorem divisor_ne_zero (laws : FloatOps.Lawful F64 F32) {r : EvalValue F64} {n : Int64}
    (hzero : ¬ FloatOps.eq (Rust.asF64 r) FloatOps.zero = true) (hfloat : Rust.isFloat r = false)
    (hn : Rust.asIntForIntegerOp r = .ok n) : n ≠ 0 := by
  rintro rfl
  apply hzero
  cases r with
  | int m =>
    cases hn
    simp only [Rust.asF64, laws.ofInt64_zero, laws.zero_eq_zero]
  | bool b =>
    cases b with
    | true => cases hn
    | false => exact laws.zero_eq_zero
  | float x => cases hfloat

theorem evalMod_agree (laws : FloatOps.Lawful F64 F32) (l r : EvalValue F64) :
    (Rust.evalMod l r).toOption = (Go.evalMod l r).toOption := by
  unfold Rust.evalMod Go.evalMod
  rw [isFloat_eq, isFloat_eq, asFloat_eq, asFloat_eq]
  split_ifs with hzero hfloat
  · rfl
  · rfl
  · have hr : Rust.isFloat r = false := by
      cases h : Rust.isFloat r with
      | false => rfl
      | true => simp [h] at hfloat
    rcases asInteger_cases laws l with ⟨a, hrl, hgl⟩ | ⟨e, e', hrl, hgl⟩ <;>
      rcases asInteger_cases laws r with ⟨n, hrr, hgr⟩ | ⟨e, e', hrr, hgr⟩ <;>
      simp only [hrl, hgl, hrr, hgr, bind, Except.bind] <;> try rfl
    rw [Rust.checkedRem, if_neg (divisor_ne_zero laws hzero hr hrr)]
    split_ifs <;> rfl

/-- Apart from wide shifts, the operators of the two engines give the same value or both fail. -/
theorem evalBinary_agree (laws : FloatOps.Lawful F64 F32) {op : BinOp} (hand : op ≠ .and)
    (hor : op ≠ .or) {l r : EvalValue F64} (hwide : wideShift op l r = false) :
    (Rust.evalBinary op l r).toOption = (Go.evalBinary op l r).toOption := by
  cases op with
  | and => exact absurd rfl hand
  | or => exact absurd rfl hor
  | add => exact evalArith_agree laws _ _ checkedAdd_eq l r
  | sub => exact evalArith_agree laws _ _ checkedSub_eq l r
  | mul => exact evalArith_agree laws _ _ checkedMul_eq l r
  | div =>
    simp only [Rust.evalBinary, Go.evalBinary, Rust.evalDiv, asFloat_eq]
    split_ifs <;> rfl
  | mod => exact evalMod_agree laws l r
  | bitAnd => exact evalBits_agree laws _ l r
  | bitOr => exact evalBits_agree laws _ l r
  | bitXor => exact evalBits_agree laws _ l r
  | shiftLeft =>
    apply evalShift_agree laws
    intro a n ha hn
    simpa [wideShift, ha, hn] using hwide
  | shiftRight =>
    apply evalShift_agree laws
    intro a n ha hn
    simpa [wideShift, ha, hn] using hwide
  | eq => simp only [Rust.evalBinary, Go.evalBinary, equalValues_eq]; rfl
  | notEq => simp only [Rust.evalBinary, Go.evalBinary, equalValues_eq]; rfl
  | lt => simp only [Rust.evalBinary, Go.evalBinary, asFloat_eq]; rfl
  | gt => simp only [Rust.evalBinary, Go.evalBinary, asFloat_eq]; rfl
  | ltEq => simp only [Rust.evalBinary, Go.evalBinary, asFloat_eq]; rfl
  | gtEq => simp only [Rust.evalBinary, Go.evalBinary, asFloat_eq]; rfl

/-! ## Evaluation -/

omit [FloatOps F64 F32] in
/-- The statuses that occur when every input is good. -/
def Trusted (s : Go.StatusCode) : Prop := Go.isGood s = true ∨ s = Go.statusBadConfigurationError

theorem baseCode_ne_of_isGood {s code : Go.StatusCode} (h : Go.isGood s = true)
    (hcode : code &&& 0xC0000000 ≠ 0) : Go.baseCode s ≠ code := by
  rintro rfl
  apply hcode
  have hmask : (0xFFFF0000 : UInt32) &&& 0xC0000000 = 0xC0000000 := by decide
  rw [Go.baseCode, UInt32.and_assoc, hmask]
  simpa [Go.isGood] using h

theorem statusPriority_of_isGood {s : Go.StatusCode} (h : Go.isGood s = true) :
    Go.statusPriority s ≤ 1 := by
  have hzero : s &&& 0xC0000000 = 0 := by simpa [Go.isGood] using h
  have hbad : Go.isBad s = false := by
    rw [Go.isBad, hzero]
    decide
  unfold Go.statusPriority
  rw [if_neg (baseCode_ne_of_isGood h (by decide)), if_neg (baseCode_ne_of_isGood h (by decide)),
    if_neg (baseCode_ne_of_isGood h (by decide)), if_neg (baseCode_ne_of_isGood h (by decide))]
  simp only [hbad, Bool.false_eq_true, if_false]
  split_ifs <;> omega

/-- Combining trusted statuses: good exactly when both are. -/
theorem worseStatus_trusted {l r : Go.StatusCode} (hl : Trusted l) (hr : Trusted r) :
    Trusted (Go.worseStatus l r) ∧
      Go.isGood (Go.worseStatus l r) = (Go.isGood l && Go.isGood r) := by
  have hpri : Go.statusPriority Go.statusBadConfigurationError = 5 := by decide
  have hnot : Go.isGood Go.statusBadConfigurationError = false := by decide
  unfold Go.worseStatus
  rcases hl with hl | rfl <;> rcases hr with hr | rfl
  · split_ifs <;> simp [Trusted, hl, hr]
  · have hle := statusPriority_of_isGood hl
    rw [if_pos (by omega)]
    simp [Trusted, hnot]
  · have hle := statusPriority_of_isGood hr
    rw [if_neg (by omega)]
    simp [Trusted, hnot]
  · simp [Trusted, hnot]

/-- Both evaluations fail, or both give the same value, valid exactly when good. -/
def SameEval : Rust.Eval (EvalValue F64 × Bool) → Go.Operand F64 × Option String → Prop
  | .ok (value, valid), (o, none) =>
    o.value = value ∧ Go.isGood o.status = valid ∧ Trusted o.status
  | .error _, (_, some _) => True
  | _, _ => False

/-- The two engines know the same variables. -/
def SameVars (goVars : Go.Variables F64) (rustVars : Rust.Variables F64)
    (validity : Rust.Validity) : Prop :=
  ∀ name, match goVars name with
    | some o =>
      rustVars name = some o.value ∧ validity name = some (Go.isGood o.status) ∧ Trusted o.status
    | none => rustVars name = none

/-- Whether evaluation executes a shift on which the engines differ. -/
def reachesWideShift (vars : Go.Variables F64) : Expr F64 → Bool
  | .literal _ => false
  | .var _ => false
  | .unary _ operand => reachesWideShift vars operand
  | .binary op left right =>
    reachesWideShift vars left ||
      match Go.eval vars left with
      | (_, some _) => false
      | (l, none) =>
        if (op = .and ∧ !Go.asBool l.value) ∨ (op = .or ∧ Go.asBool l.value) then false
        else
          reachesWideShift vars right ||
            match Go.eval vars right with
            | (_, some _) => false
            | (r, none) => wideShift op l.value r.value
  | .ite condition thenBranch elseBranch =>
    reachesWideShift vars condition ||
      match Go.eval vars condition with
      | (_, some _) => false
      | (c, none) =>
        if Go.asBool c.value then reachesWideShift vars thenBranch
        else reachesWideShift vars elseBranch

theorem SameEval.cases {r : Rust.Eval (EvalValue F64 × Bool)} {g : Go.Operand F64 × Option String}
    (h : SameEval r g) :
    (∃ e o err, r = .error e ∧ g = (o, some err)) ∨
      ∃ o, r = .ok (o.value, Go.isGood o.status) ∧ g = (o, none) ∧ Trusted o.status := by
  obtain ⟨o, err⟩ := g
  cases r with
  | error e =>
    cases err with
    | none => cases h
    | some err => exact .inl ⟨e, o, err, rfl, rfl⟩
  | ok x =>
    obtain ⟨value, valid⟩ := x
    cases err with
    | some err => cases h
    | none =>
      obtain ⟨rfl, rfl, htrust⟩ := h
      exact .inr ⟨o, rfl, rfl, htrust⟩

theorem evaluate_binary {op : BinOp} (hand : op ≠ .and) (hor : op ≠ .or)
    (vars : Rust.Variables F64) (validity : Rust.Validity) (left right : Expr F64) :
    Rust.evaluateWithValidity vars validity (.binary op left right) =
      (do
        let (l, leftValid) ← Rust.evaluateWithValidity vars validity left
        let (r, rightValid) ← Rust.evaluateWithValidity vars validity right
        let value ← Rust.evalBinary op l r
        .ok (value, leftValid && rightValid)) := by
  cases op <;> first | rfl | contradiction

/-- Without a wide shift on the executed path the two evaluators agree. -/
theorem eval_agree (laws : FloatOps.Lawful F64 F32) {goVars : Go.Variables F64}
    {rustVars : Rust.Variables F64} {validity : Rust.Validity}
    (hvars : SameVars goVars rustVars validity) (e : Expr F64)
    (hshift : reachesWideShift goVars e = false) :
    SameEval (Rust.evaluateWithValidity rustVars validity e) (Go.eval goVars e) := by
  induction e with
  | literal v =>
    have hgood : Go.isGood Go.statusGood = true := by decide
    exact ⟨rfl, hgood, .inl hgood⟩
  | var name =>
    have h := hvars name
    simp only [Rust.evaluateWithValidity, Go.eval]
    cases hg : goVars name with
    | none =>
      simp only [hg] at h
      simp [h, SameEval]
    | some o =>
      simp only [hg] at h
      simp [h.1, h.2.1, h.2.2, SameEval]
  | unary op operand ih =>
    rcases (ih hshift).cases with ⟨e, o, err, hr, hg⟩ | ⟨o, hr, hg, htrust⟩
    · simp [Rust.evaluateWithValidity, Go.eval, hr, hg, bind, Except.bind, SameEval]
    · have hop := evalUnary_agree laws op o.value
      simp only [Rust.evaluateWithValidity, Go.eval, hr, hg, bind, Except.bind]
      cases hru : Rust.evalUnary op o.value <;> cases hgu : Go.evalUnary op o.value <;>
        simp_all [SameEval, Except.toOption]
  | binary op left right ihl ihr =>
    simp only [reachesWideShift, Bool.or_eq_false_iff] at hshift
    obtain ⟨hleft, hshift⟩ := hshift
    rcases (ihl hleft).cases with ⟨e, o, err, hr, hg⟩ | ⟨l, hrl, hgl, hl⟩
    · by_cases hand : op = .and
      · subst hand
        simp [Rust.evaluateWithValidity, Go.eval, hr, hg, bind, Except.bind, SameEval]
      by_cases hor : op = .or
      · subst hor
        simp [Rust.evaluateWithValidity, Go.eval, hr, hg, bind, Except.bind, SameEval]
      rw [evaluate_binary hand hor]
      simp [Go.eval, hr, hg, bind, Except.bind, SameEval]
    simp only [hgl] at hshift
    have hbool : Go.asBool l.value = Rust.asBool l.value := rfl
    by_cases hstop : (op = .and ∧ !Go.asBool l.value) ∨ (op = .or ∧ Go.asBool l.value)
    · -- Short circuit: the left operand decides, with its own status.
      rcases hstop with ⟨rfl, hb⟩ | ⟨rfl, hb⟩
      · simp only [Rust.evaluateWithValidity, Go.eval, hrl, hgl, bind, Except.bind]
        rw [hbool] at hb ⊢
        simp [hb, SameEval, hl]
      · simp only [Rust.evaluateWithValidity, Go.eval, hrl, hgl, bind, Except.bind]
        rw [hbool] at hb ⊢
        simp [hb, SameEval, hl]
    rw [if_neg hstop, Bool.or_eq_false_iff] at hshift
    obtain ⟨hright, hwide⟩ := hshift
    obtain ⟨hstopAnd, hstopOr⟩ := not_or.mp hstop
    -- The logical operators take the truth of the right operand, the others compute.
    by_cases hand : op = .and
    · subst hand
      have hb : Rust.asBool l.value = true := by simpa [hbool] using hstopAnd
      rcases (ihr hright).cases with ⟨e, o, err, hr, hg⟩ | ⟨r, hrr, hgr, hr⟩
      · simp [Rust.evaluateWithValidity, Go.eval, hrl, hgl, hr, hg, hbool, hb, bind, Except.bind,
          SameEval]
      · obtain ⟨htrust, hgood⟩ := worseStatus_trusted hl hr
        simp only [Rust.evaluateWithValidity, Go.eval, hrl, hgl, hrr, hgr, hbool, hb, bind,
          Except.bind]
        exact ⟨rfl, hgood, htrust⟩
    by_cases hor : op = .or
    · subst hor
      have hb : Rust.asBool l.value = false := by simpa [hbool] using hstopOr
      rcases (ihr hright).cases with ⟨e, o, err, hr, hg⟩ | ⟨r, hrr, hgr, hr⟩
      · simp [Rust.evaluateWithValidity, Go.eval, hrl, hgl, hr, hg, hbool, hb, bind, Except.bind,
          SameEval]
      · obtain ⟨htrust, hgood⟩ := worseStatus_trusted hl hr
        simp only [Rust.evaluateWithValidity, Go.eval, hrl, hgl, hrr, hgr, hbool, hb, bind,
          Except.bind]
        exact ⟨rfl, hgood, htrust⟩
    rw [evaluate_binary hand hor]
    rcases (ihr hright).cases with ⟨e, o, err, hr, hg⟩ | ⟨r, hrr, hgr, hr⟩
    · simp [Go.eval, hrl, hgl, hr, hg, hand, hor, bind, Except.bind, SameEval]
    · simp only [hgr] at hwide
      have hop := evalBinary_agree laws hand hor hwide
      obtain ⟨htrust, hgood⟩ := worseStatus_trusted hl hr
      simp only [Go.eval, hrl, hgl, hrr, hgr, hand, hor, false_and, if_false, bind, Except.bind]
      cases hru : Rust.evalBinary op l.value r.value <;>
        cases hgu : Go.evalBinary op l.value r.value <;>
        simp_all [SameEval, Except.toOption, Go.Operand.combine]
  | ite c t e ihc iht ihe =>
    simp only [reachesWideShift, Bool.or_eq_false_iff] at hshift
    obtain ⟨hcond, hshift⟩ := hshift
    rcases (ihc hcond).cases with ⟨e, o, err, hr, hg⟩ | ⟨c, hrc, hgc, hc⟩
    · simp [Rust.evaluateWithValidity, Go.eval, hr, hg, bind, Except.bind, SameEval]
    simp only [hgc] at hshift
    have hbool : Go.asBool c.value = Rust.asBool c.value := rfl
    have hbranch : ∀ {r : Rust.Eval (EvalValue F64 × Bool)} {g : Go.Operand F64 × Option String},
        SameEval r g →
        SameEval (do
            let (value, branchValid) ← r
            .ok (value, Go.isGood c.status && branchValid))
          (c.combine g.1 g.1.value, g.2) := by
      intro r g h
      rcases h.cases with ⟨e, o, err, rfl, rfl⟩ | ⟨o, rfl, rfl, ho⟩
      · trivial
      · obtain ⟨htrust, hgood⟩ := worseStatus_trusted hc ho
        exact ⟨rfl, hgood, htrust⟩
    simp only [Rust.evaluateWithValidity, Go.eval, hrc, hgc, bind, Except.bind]
    rw [hbool] at hshift ⊢
    cases hb : Rust.asBool c.value with
    | true =>
      simp only [hb, if_true] at hshift ⊢
      exact hbranch (iht hshift)
    | false =>
      simp only [hb, Bool.false_eq_true, if_false] at hshift ⊢
      exact hbranch (ihe hshift)

end

end RcdServer.Calc
