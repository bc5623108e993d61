import RcdServer.Calc.Rust.Expression

/-!
# Printings of a syntax tree

`Printing p e l`: the tokens `l` are a printing of `e` that may stand where binding power `p`
is asked for. Parentheses are free to add and may be left out where the table of binding powers
allows it. The parser accepts the printings and nothing else.
-/
namespace RcdServer.Calc.Rust

variable {F64 : Type}

def binopToken : BinOp → Token F64
  | .add => .plus
  | .sub => .minus
  | .mul => .star
  | .div => .slash
  | .mod => .percent
  | .bitAnd => .amp
  | .bitOr => .pipe
  | .bitXor => .caret
  | .shiftLeft => .shiftLeft
  | .shiftRight => .shiftRight
  | .and => .and
  | .or => .or
  | .eq => .eq
  | .notEq => .notEq
  | .lt => .lt
  | .gt => .gt
  | .ltEq => .ltEq
  | .gtEq => .gtEq

def unaryToken : UnaryOp → Token F64
  | .neg => .minus
  | .not => .bang
  | .bitNot => .tilde

/-- The words for the truth values, in any ASCII case. -/
def boolWord (name : String) : Option Bool :=
  if eqIgnoreAsciiCase name "true" then some true
  else if eqIgnoreAsciiCase name "false" then some false
  else none

def parens (l : List (Token F64)) : List (Token F64) := .lparen :: l ++ [.rparen]

inductive Printing : Nat → Expr F64 → List (Token F64) → Prop
  | int (p : Nat) (n : Int64) : Printing p (.literal (.int n)) [.int n]
  | float (p : Nat) (x : F64) : Printing p (.literal (.float x)) [.float x]
  | bool (p : Nat) {b : Bool} {name : String} (hname : boolWord name = some b) :
      Printing p (.literal (.bool b)) [.ident name]
  | var (p : Nat) {name : String} (hname : boolWord name = none) :
      Printing p (.var name) [.ident name]
  | paren (p : Nat) {e : Expr F64} {l : List (Token F64)} (he : Printing 0 e l) :
      Printing p e (parens l)
  | unary (p : Nat) {op : UnaryOp} {e : Expr F64} {l : List (Token F64)}
      (he : Printing (prefixBp op) e l) : Printing p (.unary op e) (unaryToken op :: l)
  | binary {p : Nat} {op : BinOp} {a b : Expr F64} {l m : List (Token F64)}
      (hp : p ≤ (infixBp op).1) (ha : Printing (infixBp op).1 a l)
      (hb : Printing (infixBp op).2 b m) : Printing p (.binary op a b) (l ++ binopToken op :: m)
  | ite (p : Nat) {name : String} {c t e : Expr F64} {lc lt le : List (Token F64)}
      (hname : eqIgnoreAsciiCase name "if" = true) (hc : Printing 0 c lc) (ht : Printing 0 t lt)
      (he : Printing 0 e le) :
      Printing p (.ite c t e)
        (.ident name :: .lparen :: (lc ++ .comma :: (lt ++ .comma :: (le ++ [.rparen]))))

/-! ## The table -/

theorem infixBp_right (op : BinOp) : (infixBp op).2 = (infixBp op).1 + 1 := by
  cases op <;> rfl

theorem infixBp_lt_prefixBp (op : BinOp) (unary : UnaryOp) : (infixBp op).1 < prefixBp unary := by
  cases op <;> cases unary <;> decide

@[simp] theorem tokenToBinop_binopToken (op : BinOp) :
    tokenToBinop (binopToken op : Token F64) = some op := by
  cases op <;> rfl

theorem eq_binopToken {t : Token F64} {op : BinOp} (h : tokenToBinop t = some op) :
    t = binopToken op := by
  cases t <;> cases h <;> rfl

theorem binopToken_ne_lparen (op : BinOp) : (binopToken op : Token F64) ≠ .lparen := by
  cases op <;> simp [binopToken]

theorem boolWord_of_if {name : String} (h : eqIgnoreAsciiCase name "if" = true) :
    eqIgnoreAsciiCase name "true" = false ∧ eqIgnoreAsciiCase name "false" = false := by
  have hif : Lib.Text.asciiLower name = Lib.Text.asciiLower "if" := by
    simpa [eqIgnoreAsciiCase] using h
  constructor <;> rw [eqIgnoreAsciiCase, hif] <;> decide

/-- What may stand where a power is asked for may stand where less is asked for. -/
theorem Printing.mono {p q : Nat} {e : Expr F64} {l : List (Token F64)} (h : Printing p e l)
    (hq : q ≤ p) : Printing q e l := by
  cases h with
  | int _ n => exact .int q n
  | float _ x => exact .float q x
  | bool _ hname => exact .bool q hname
  | var _ hname => exact .var q hname
  | paren _ he => exact .paren q he
  | unary _ he => exact .unary q he
  | binary hp ha hb => exact .binary (hq.trans hp) ha hb
  | ite _ hname hc ht he => exact .ite q hname hc ht he

def isEof : Token F64 → Bool
  | .eof => true
  | _ => false

theorem Printing.no_eof {p : Nat} {e : Expr F64} {l : List (Token F64)} (h : Printing p e l) :
    ∀ t ∈ l, isEof t = false := by
  induction h with
  | int => simp [isEof]
  | float => simp [isEof]
  | bool => simp [isEof]
  | var => simp [isEof]
  | paren _ _ ih =>
    intro t ht
    rcases List.mem_cons.mp ht with rfl | ht
    · rfl
    · rcases List.mem_append.mp ht with ht | ht
      · exact ih t ht
      · rw [List.mem_singleton.mp ht]
        rfl
  | @unary _ op _ _ _ ih =>
    intro t ht
    rcases List.mem_cons.mp ht with rfl | ht
    · cases op <;> rfl
    · exact ih t ht
  | @binary _ op _ _ _ _ _ _ _ iha ihb =>
    intro t ht
    rcases List.mem_append.mp ht with ht | ht
    · exact iha t ht
    · rcases List.mem_cons.mp ht with rfl | ht
      · cases op <;> rfl
      · exact ihb t ht
  | ite _ _ _ _ _ ihc iht ihe =>
    intro t ht
    simp only [List.mem_cons, List.mem_append, List.not_mem_nil, or_false] at ht
    rcases ht with rfl | rfl | ht | rfl | ht | rfl | ht | rfl
    · rfl
    · rfl
    · exact ihc t ht
    · rfl
    · exact iht t ht
    · rfl
    · exact ihe t ht
    · rfl

/-! ## Printings are accepted -/

/-- The parser reads `e` off the front of `ts`, whatever its bound beyond the tokens. -/
def Accepts (m : Nat) (ts : List (Token F64)) (e : Expr F64) (rest : List (Token F64)) : Prop :=
  ∀ fuel, ts.length < fuel → exprBp fuel m ts = .ok (e, rest)

/-- The loop of `expr_bp`, entered with `lhs`, ends with `e`. -/
def Loops (m : Nat) (lhs : Expr F64) (ts : List (Token F64)) (e : Expr F64)
    (rest : List (Token F64)) : Prop :=
  ∀ fuel rounds, ts.length ≤ fuel → ts.length < rounds →
    infixPart (exprBp fuel) m rounds lhs ts = .ok (e, rest)

/-- The part of `expr_bp` before its loop yields `lhs`. -/
def Reads (ts : List (Token F64)) (lhs : Expr F64) (us : List (Token F64)) : Prop :=
  ∀ fuel, ts.length ≤ fuel → prefixPart (exprBp fuel) ts = .ok (lhs, us)

variable {m : Nat} {ts us vs : List (Token F64)} {lhs e : Expr F64} {rest : List (Token F64)}

theorem Accepts.length_lt (h : Accepts m ts e rest) : rest.length < ts.length := by
  have hprogress := @exprBp_progress F64 (ts.length + 1) m ts (Nat.lt_succ_self _)
  rw [h _ (Nat.lt_succ_self _)] at hprogress
  exact hprogress

theorem Reads.length_lt (h : Reads ts lhs us) : us.length < ts.length := by
  have hprogress := prefixPart_consumes (@exprBp_progress F64 ts.length) (le_refl ts.length)
  rw [h _ (le_refl _)] at hprogress
  exact hprogress

theorem Reads.accepts (h : Reads ts lhs us) (hloop : Loops m lhs us e rest) :
    Accepts m ts e rest := by
  intro fuel hfuel
  have hlt := h.length_lt
  obtain ⟨bound, rfl⟩ : ∃ bound, fuel = bound + 1 := ⟨fuel - 1, by omega⟩
  rw [exprBp, h bound (by omega)]
  exact hloop bound (us.length + 1) (by omega) (Nat.lt_succ_self _)

/-- The tokens at which a loop asking for `m` stops. -/
def Stops (m : Nat) (ts : List (Token F64)) : Prop :=
  ∀ op, tokenToBinop (peek ts) = some op → (infixBp op).1 < m

theorem Stops.loops (h : Stops m ts) : Loops m lhs ts lhs ts := by
  intro fuel rounds _ hrounds
  obtain ⟨left, rfl⟩ : ∃ left, rounds = left + 1 := ⟨rounds - 1, by omega⟩
  rw [infixPart]
  cases hop : tokenToBinop (peek ts) with
  | none => rfl
  | some op => exact if_pos (h op hop)

theorem Accepts.loops {op : BinOp} {rhs : Expr F64} (hop : m ≤ (infixBp op).1)
    (hrhs : Accepts (infixBp op).2 us rhs vs) (h : Loops m (.binary op lhs rhs) vs e rest) :
    Loops m lhs (binopToken op :: us) e rest := by
  intro fuel rounds hfuel hrounds
  have hlt := hrhs.length_lt
  simp only [List.length_cons] at hfuel hrounds
  obtain ⟨left, rfl⟩ : ∃ left, rounds = left + 1 := ⟨rounds - 1, by omega⟩
  have htail : infixPart (exprBp fuel) m (left + 1) lhs (binopToken op :: us) =
      if (infixBp op).1 < m then .ok (lhs, binopToken op :: us)
      else (exprBp fuel (infixBp op).2 us >>= fun x =>
        infixPart (exprBp fuel) m left (.binary op lhs x.1) x.2) := by
    rw [infixPart, peek, tokenToBinop_binopToken]
    rfl
  rw [htail, if_neg (Nat.not_lt.mpr hop), hrhs fuel (by omega)]
  exact h fuel left (by omega) (by omega)

theorem Reads.paren (h : Accepts 0 us e (.rparen :: vs)) : Reads (.lparen :: us) e vs := by
  intro fuel hfuel
  show (exprBp fuel 0 us >>= _) = _
  rw [h fuel hfuel]
  rfl

theorem Reads.unary {op : UnaryOp} (h : Accepts (prefixBp op) us e vs) :
    Reads (unaryToken op :: us) (.unary op e) vs := by
  intro fuel hfuel
  have hunary : prefixPart (exprBp fuel) (unaryToken op :: us) = parseUnary (exprBp fuel) op us := by
    cases op <;> rfl
  rw [hunary, parseUnary, h fuel hfuel]
  rfl

theorem Reads.bool {name : String} {b : Bool} (h : boolWord name = some b) :
    Reads (.ident name :: us) (.literal (.bool b)) us := by
  intro fuel _
  unfold boolWord at h
  show (if eqIgnoreAsciiCase name "true" = true then _ else _) = _
  split_ifs at h with htrue hfalse
  · cases h
    rw [if_pos htrue]
    rfl
  · cases h
    rw [if_neg htrue, if_pos hfalse]
    rfl

theorem Reads.var {name : String} (h : boolWord name = none) (hus : peek us ≠ .lparen) :
    Reads (.ident name :: us) (.var name) us := by
  intro fuel _
  unfold boolWord at h
  split_ifs at h with htrue hfalse
  show (if eqIgnoreAsciiCase name "true" = true then _ else _) = _
  rw [if_neg htrue, if_neg hfalse]
  split
  · rename_i hparen
    exact absurd hparen hus
  · rfl

theorem Reads.ite {name : String} {c t : Expr F64} {ws : List (Token F64)}
    (hname : eqIgnoreAsciiCase name "if" = true) (hc : Accepts 0 us c (.comma :: vs))
    (ht : Accepts 0 vs t (.comma :: ws)) (he : Accepts 0 ws e (.rparen :: rest)) :
    Reads (.ident name :: .lparen :: us) (.ite c t e) rest := by
  intro fuel hfuel
  have hcl := hc.length_lt
  have htl := ht.length_lt
  simp only [List.length_cons] at hfuel hcl htl
  obtain ⟨htrue, hfalse⟩ := boolWord_of_if hname
  have hif : prefixPart (exprBp fuel) (.ident name :: .lparen :: us) =
      parseIfFunction (exprBp fuel) (.lparen :: us) := by
    simp only [prefixPart, peek, List.tail_cons, htrue, hfalse, hname, Bool.false_eq_true, if_false]
  rw [hif]
  show (exprBp fuel 0 us >>= _) = _
  rw [hc fuel (by omega)]
  show (exprBp fuel 0 vs >>= _) = _
  rw [ht fuel (by omega)]
  show (exprBp fuel 0 ws >>= _) = _
  rw [he fuel (by omega)]
  rfl

/-- What may follow a printing: no operator that the printing would have to give way to. -/
structure Follows (p : Nat) (rest : List (Token F64)) : Prop where
  notParen : peek rest ≠ .lparen
  looser : ∀ op, tokenToBinop (peek rest) = some op → (infixBp op).1 ≤ p

theorem Follows.rparen (p : Nat) : Follows p (.rparen :: vs) := ⟨nofun, nofun⟩

theorem Follows.comma (p : Nat) : Follows p (.comma :: vs) := ⟨nofun, nofun⟩

/-- By induction on the printing: the parser reads it and goes on with the loop, as long as the
loop asks for no more than the printing offers. -/
theorem Printing.accepts {p : Nat} {e : Expr F64} {l : List (Token F64)} (h : Printing p e l) :
    ∀ {m : Nat} {rest : List (Token F64)} {e' : Expr F64} {rest' : List (Token F64)}, m ≤ p →
      Follows p rest → Loops m e rest e' rest' → Accepts m (l ++ rest) e' rest' := by
  have hstops : ∀ {p : Nat} {vs : List (Token F64)}, Follows p vs → ∀ q, p < q → Stops q vs :=
    fun hvs q hq op hop => Nat.lt_of_le_of_lt (hvs.looser op hop) hq
  induction h with
  | int p n =>
    intro m rest e' rest' _ _ hloop
    exact Reads.accepts (fun _ _ => rfl) hloop
  | float p x =>
    intro m rest e' rest' _ _ hloop
    exact Reads.accepts (fun _ _ => rfl) hloop
  | bool p hname =>
    intro m rest e' rest' _ _ hloop
    exact (Reads.bool hname).accepts hloop
  | var p hname =>
    intro m rest e' rest' _ hrest hloop
    exact (Reads.var hname hrest.notParen).accepts hloop
  | @paren p e l _ ih =>
    intro m rest e' rest' _ _ hloop
    have hinner : Accepts 0 (l ++ .rparen :: rest) e (.rparen :: rest) :=
      ih (le_refl 0) (.rparen 0) (Stops.loops nofun)
    have hread := (Reads.paren hinner).accepts hloop
    simpa [parens] using hread
  | @unary p op e l _ ih =>
    intro m rest e' rest' _ hrest hloop
    have hstop : Stops (prefixBp op) rest := fun binop _ => infixBp_lt_prefixBp binop op
    have hoperand : Accepts (prefixBp op) (l ++ rest) e rest :=
      ih (le_refl _) ⟨hrest.notParen, fun binop hop => Nat.le_of_lt (hstop binop hop)⟩ hstop.loops
    exact (Reads.unary hoperand).accepts hloop
  | @binary p op a b l r hp _ _ iha ihb =>
    intro m rest e' rest' hm hrest hloop
    have hright : p < (infixBp op).2 := by
      rw [infixBp_right]
      omega
    have hrhs : Accepts (infixBp op).2 (r ++ rest) b rest :=
      ihb (le_refl _) ⟨hrest.notParen, fun next hop => (hrest.looser next hop).trans hright.le⟩
        (hstops hrest _ hright).loops
    have hfollow : Follows (infixBp op).1 (binopToken op :: (r ++ rest)) := by
      refine ⟨binopToken_ne_lparen op, ?_⟩
      intro next hnext
      obtain rfl : op = next := by simpa [peek] using hnext
      exact le_refl _
    have hall := iha (hm.trans hp) hfollow (hrhs.loops (hm.trans hp) hloop)
    simpa using hall
  | @ite p name c t e lc lt le hname _ _ _ ihc iht ihe =>
    intro m rest e' rest' _ _ hloop
    have he : Accepts 0 (le ++ .rparen :: rest) e (.rparen :: rest) :=
      ihe (le_refl 0) (.rparen 0) (Stops.loops nofun)
    have ht : Accepts 0 (lt ++ .comma :: (le ++ .rparen :: rest)) t _ :=
      iht (le_refl 0) (.comma 0) (Stops.loops nofun)
    have hc : Accepts 0 (lc ++ .comma :: (lt ++ .comma :: (le ++ .rparen :: rest))) c _ :=
      ihc (le_refl 0) (.comma 0) (Stops.loops nofun)
    have hread := (Reads.ite hname hc ht he).accepts hloop
    simpa using hread

/-! ## What is accepted is a printing -/

theorem eq_cons_of_peek {t : Token F64} (h : peek ts = t) (ht : t ≠ .eof) : ts = t :: ts.tail := by
  cases ts with
  | nil => exact absurd h.symm ht
  | cons a ts => rw [← h, peek, List.tail_cons]

/-- The accepted tokens are a printing, and the loop had to stop behind them. -/
def Sound (exprBp : Nat → List (Token F64) → Parse F64 (Rest F64)) : Prop :=
  ∀ {m ts e rest}, exprBp m ts = .ok (e, rest) →
    ∃ l, ts = l ++ rest ∧ Printing m e l ∧ Stops m rest

variable {exprBp' : Nat → List (Token F64) → Parse F64 (Rest F64)}

theorem parseIfFunction_printing (hp : Sound exprBp') (hts : peek ts = .lparen)
    (h : parseIfFunction exprBp' ts = .ok (e, rest)) :
    ∃ c t f lc lt lf, e = .ite c t f ∧ Printing 0 c lc ∧ Printing 0 t lt ∧ Printing 0 f lf ∧
      ts = .lparen :: (lc ++ .comma :: (lt ++ .comma :: (lf ++ .rparen :: rest))) := by
  have hts := eq_cons_of_peek hts (by simp)
  unfold parseIfFunction at h
  split at h
  · cases hc : exprBp' 0 ts.tail with
    | error err => simp [hc, bind, Except.bind] at h
    | ok x =>
      obtain ⟨c, us⟩ := x
      simp only [hc, bind, Except.bind] at h
      split at h
      · rename_i hcomma
        cases ht : exprBp' 0 us.tail with
        | error err => simp [ht] at h
        | ok x =>
          obtain ⟨t, vs⟩ := x
          simp only [ht] at h
          split at h
          · rename_i hcomma'
            cases hf : exprBp' 0 vs.tail with
            | error err => simp [hf] at h
            | ok x =>
              obtain ⟨f, ws⟩ := x
              simp only [hf] at h
              split at h
              · rename_i hparen
                cases h
                obtain ⟨lc, hlc, hcp, -⟩ := hp hc
                obtain ⟨lt, hlt, htp, -⟩ := hp ht
                obtain ⟨lf, hlf, hfp, -⟩ := hp hf
                refine ⟨c, t, f, lc, lt, lf, rfl, hcp, htp, hfp, ?_⟩
                rw [hts, hlc, eq_cons_of_peek hcomma (by simp), hlt,
                  eq_cons_of_peek hcomma' (by simp), hlf, eq_cons_of_peek hparen (by simp)]
                simp
              · cases h
          · cases h
      · cases h
  · cases h

theorem parseUnary_printing (hp : Sound exprBp') {op : UnaryOp}
    (h : parseUnary exprBp' op us = .ok (e, rest)) :
    ∃ operand l, e = .unary op operand ∧ us = l ++ rest ∧ Printing (prefixBp op) operand l := by
  unfold parseUnary at h
  cases hu : exprBp' (prefixBp op) us with
  | error err => simp [hu, bind, Except.bind] at h
  | ok x =>
    obtain ⟨operand, vs⟩ := x
    simp only [hu, bind, Except.bind] at h
    cases h
    obtain ⟨l, hl, hprint, -⟩ := hp hu
    exact ⟨operand, l, rfl, hl, hprint⟩

/-- What the parser reads before its loop may stand anywhere. -/
theorem prefixPart_printing (hp : Sound exprBp') (h : prefixPart exprBp' ts = .ok (lhs, us)) :
    ∃ l, ts = l ++ us ∧ ∀ p, Printing p lhs l := by
  have hunary : ∀ {op : UnaryOp}, peek ts = unaryToken op →
      parseUnary exprBp' op ts.tail = .ok (lhs, us) → ∃ l, ts = l ++ us ∧ ∀ p, Printing p lhs l := by
    intro op hpeek hread
    obtain ⟨operand, l, rfl, hl, hprint⟩ := parseUnary_printing hp hread
    refine ⟨unaryToken op :: l, ?_, fun p => .unary p hprint⟩
    rw [eq_cons_of_peek hpeek (by cases op <;> simp [unaryToken]), hl, List.cons_append]
  unfold prefixPart at h
  split at h
  case h_1 n hpeek =>
    cases h
    exact ⟨[.int n], eq_cons_of_peek hpeek (by simp), fun p => .int p n⟩
  case h_2 x hpeek =>
    cases h
    exact ⟨[.float x], eq_cons_of_peek hpeek (by simp), fun p => .float p x⟩
  case h_3 name hpeek =>
    have hts := eq_cons_of_peek hpeek (by simp)
    split at h
    · rename_i htrue
      cases h
      exact ⟨[.ident name], hts, fun p => .bool p (by rw [boolWord, if_pos htrue])⟩
    · rename_i htrue
      split at h
      · rename_i hfalse
        cases h
        exact ⟨[.ident name], hts, fun p => .bool p (by rw [boolWord, if_neg htrue, if_pos hfalse])⟩
      · rename_i hfalse
        split at h
        · rename_i hif hparen
          obtain ⟨c, t, f, lc, lt, lf, rfl, hc, ht, hf, hall⟩ :=
            parseIfFunction_printing hp hparen h
          refine ⟨_, ?_, fun p => .ite p hif hc ht hf⟩
          rw [hts, hall]
          simp
        · cases h
          exact ⟨[.ident name], hts, fun p => .var p (by rw [boolWord, if_neg htrue, if_neg hfalse])⟩
  case h_4 hpeek =>
    cases hinner : exprBp' 0 ts.tail with
    | error err => simp [hinner, bind, Except.bind] at h
    | ok x =>
      obtain ⟨inner, vs⟩ := x
      simp only [hinner, bind, Except.bind] at h
      split at h
      · rename_i hparen
        cases h
        obtain ⟨l, hl, hprint, -⟩ := hp hinner
        refine ⟨parens l, ?_, fun p => .paren p hprint⟩
        rw [eq_cons_of_peek hpeek (by simp), hl, eq_cons_of_peek hparen (by simp)]
        simp [parens]
      · cases h
  case h_5 hpeek => exact @hunary .neg hpeek h
  case h_6 hpeek => exact @hunary .not hpeek h
  case h_7 hpeek => exact @hunary .bitNot hpeek h
  case h_8 => cases h

/-- The loop keeps a printing: the next operator binds no tighter than the last one, so what has
been read so far may stand to its left. -/
theorem infixPart_printing (hp : Sound exprBp') {rounds : Nat} {l : List (Token F64)}
    (h : infixPart exprBp' m rounds lhs us = .ok (e, rest)) (hl : Printing m lhs l)
    (hleft : ∀ op, tokenToBinop (peek us) = some op → Printing (infixBp op).1 lhs l) :
    ∃ r, l ++ us = r ++ rest ∧ Printing m e r ∧ Stops m rest := by
  induction rounds generalizing lhs us l with
  | zero => cases h
  | succ rounds ih =>
    rw [infixPart] at h
    split at h
    · rename_i hnone
      cases h
      exact ⟨l, rfl, hl, fun op hop => by rw [hnone] at hop; cases hop⟩
    · rename_i op hop
      simp only at h
      split_ifs at h with hlt
      · cases h
        refine ⟨l, rfl, hl, fun op' hop' => ?_⟩
        rw [hop] at hop'
        cases hop'
        exact hlt
      · cases hrhs : exprBp' (infixBp op).2 us.tail with
        | error err => simp [hrhs, bind, Except.bind] at h
        | ok x =>
          obtain ⟨rhs, vs⟩ := x
          simp only [hrhs, bind, Except.bind] at h
          obtain ⟨r, hr, hprint, hstop⟩ := hp hrhs
          have hbinary : ∀ q, q ≤ (infixBp op).1 →
              Printing q (.binary op lhs rhs) (l ++ binopToken op :: r) :=
            fun q hq => .binary hq (hleft op hop) hprint
          obtain ⟨all, hall, hresult⟩ := ih h (hbinary m (Nat.not_lt.mp hlt)) (by
            intro next hnext
            have hloose := hstop next hnext
            rw [infixBp_right] at hloose
            exact hbinary _ (Nat.lt_succ_iff.mp hloose))
          refine ⟨all, ?_, hresult⟩
          have hus : us = binopToken op :: us.tail := by
            apply eq_cons_of_peek (eq_binopToken hop)
            cases op <;> simp [binopToken]
          rw [← hall, hus, hr]
          simp

theorem exprBp_sound (fuel : Nat) : Sound (@exprBp F64 fuel) := by
  induction fuel with
  | zero =>
    intro m ts e rest h
    cases h
  | succ fuel ih =>
    intro m ts e rest h
    rw [exprBp] at h
    cases hpart : prefixPart (exprBp fuel) ts with
    | error err => simp [hpart, bind, Except.bind] at h
    | ok x =>
      obtain ⟨lhs, us⟩ := x
      simp only [hpart, bind, Except.bind] at h
      obtain ⟨l, rfl, hl⟩ := prefixPart_printing ih hpart
      exact infixPart_printing ih h (hl m) fun op _ => hl _

/-- The tokens before the end marker, which stands at the end of the list at the latest. -/
def beforeEof (tokens : List (Token F64)) : List (Token F64) := tokens.takeWhile fun t => !isEof t

theorem peek_eof_iff : peek ts = .eof ↔ ts = [] ∨ ∃ more, ts = .eof :: more := by
  cases ts with
  | nil => simp [peek]
  | cons t ts => simp [peek]

theorem beforeEof_append {l : List (Token F64)} (hl : ∀ t ∈ l, isEof t = false)
    (hrest : peek rest = .eof) : beforeEof (l ++ rest) = l := by
  have hnil : beforeEof rest = [] := by
    rcases peek_eof_iff.mp hrest with rfl | ⟨more, rfl⟩
    · rfl
    · rfl
  rw [beforeEof, List.takeWhile_append_of_pos (by simpa using hl)]
  simp only [beforeEof] at hnil
  rw [hnil, List.append_nil]

/-- The parser accepts the printings. -/
theorem parse_iff {tokens : List (Token F64)} {e : Expr F64} :
    parse tokens = .ok e ↔ Printing 0 e (beforeEof tokens) := by
  constructor
  · intro h
    unfold parse at h
    cases hexpr : exprBp (tokens.length + 1) 0 tokens with
    | error err => simp [hexpr, bind, Except.bind] at h
    | ok x =>
      obtain ⟨ast, rest⟩ := x
      simp only [hexpr, bind, Except.bind] at h
      split at h
      · rename_i heof
        cases h
        obtain ⟨l, rfl, hl, -⟩ := exprBp_sound _ hexpr
        rwa [beforeEof_append hl.no_eof heof]
      · cases h
  · intro h
    obtain ⟨rest, hrest, heof⟩ : ∃ rest, tokens = beforeEof tokens ++ rest ∧ peek rest = .eof := by
      refine ⟨tokens.dropWhile fun t => !isEof t, (List.takeWhile_append_dropWhile).symm, ?_⟩
      cases hdrop : tokens.dropWhile fun t => !isEof t with
      | nil => rfl
      | cons t more =>
        have hne : (tokens.dropWhile fun t => !isEof t) ≠ [] := by simp [hdrop]
        have ht := List.head_dropWhile_not _ hne
        simp only [hdrop, List.head_cons, Bool.not_eq_false'] at ht
        cases t <;> first | rfl | cases ht
    have hfollow : Follows 0 rest := ⟨by simp [heof], by simp [heof, tokenToBinop]⟩
    have hstop : Stops 0 rest := by simp [Stops, heof, tokenToBinop]
    have haccepts := h.accepts (le_refl 0) hfollow hstop.loops
    rw [← hrest] at haccepts
    rw [parse, haccepts _ (Nat.lt_succ_self _)]
    show (match peek rest with | .eof => _ | t => _) = _
    rw [heof]

/-! ## The printing with the fewest parentheses -/

def print : Nat → Expr F64 → List (Token F64)
  | _, .literal (.int n) => [.int n]
  | _, .literal (.float x) => [.float x]
  | _, .literal (.bool b) => [.ident (if b then "true" else "false")]
  | _, .var name => [.ident name]
  | _, .unary op operand => unaryToken op :: print (prefixBp op) operand
  | p, .binary op left right =>
    let tokens := print (infixBp op).1 left ++ binopToken op :: print (infixBp op).2 right
    if (infixBp op).1 < p then parens tokens else tokens
  | _, .ite condition thenBranch elseBranch =>
    .ident "IF" :: .lparen :: (print 0 condition ++
      .comma :: (print 0 thenBranch ++ .comma :: (print 0 elseBranch ++ [.rparen])))

example : print 0 (.binary .mul (.var "a") (.binary .add (.var "b") (.literal (.int 1))) : Expr Int) =
    [.ident "a", .star, .lparen, .ident "b", .plus, .int 1, .rparen] := rfl

/-- No variable is named like a truth value. -/
def Named : Expr F64 → Prop
  | .literal _ => True
  | .var name => boolWord name = none
  | .unary _ operand => Named operand
  | .binary _ left right => Named left ∧ Named right
  | .ite condition thenBranch elseBranch => Named condition ∧ Named thenBranch ∧ Named elseBranch

theorem printing_print {e : Expr F64} (h : Named e) (p : Nat) : Printing p e (print p e) := by
  induction e generalizing p with
  | literal v =>
    cases v with
    | int n => exact .int p n
    | float x => exact .float p x
    | bool b =>
      apply Printing.bool
      cases b <;> decide
  | var name => exact .var p h
  | unary op operand ih => exact .unary p (ih h _)
  | binary op left right ihl ihr =>
    rw [print]
    split_ifs with hp
    · exact .paren p (.binary (Nat.zero_le _) (ihl h.1 _) (ihr h.2 _))
    · exact .binary (Nat.not_lt.mp hp) (ihl h.1 _) (ihr h.2 _)
  | ite c t f ihc iht ihf => exact .ite p (by decide) (ihc h.1 _) (iht h.2.1 _) (ihf h.2.2 _)

theorem length_print_le (p : Nat) (e : Expr F64) : (print p e).length ≤ (print 0 e).length + 2 := by
  cases e with
  | literal v => cases v <;> simp [print]
  | binary op left right =>
    simp only [print, Nat.not_lt_zero, if_false]
    split_ifs
    · simp only [parens, List.cons_append, List.length_cons, List.length_append, List.length_nil]
      omega
    · omega
  | _ => simp [print]

/-- No printing is shorter. -/
theorem Printing.print_le {p : Nat} {e : Expr F64} {l : List (Token F64)} (h : Printing p e l) :
    (print p e).length ≤ l.length := by
  induction h with
  | int => exact le_refl _
  | float => exact le_refl _
  | bool => exact le_refl _
  | var => exact le_refl _
  | @paren p e l _ ih =>
    have hadd := length_print_le p e
    simp only [parens, List.cons_append, List.length_cons, List.length_append, List.length_nil]
    omega
  | unary _ _ ih => simpa [print] using ih
  | binary hp _ _ iha ihb =>
    rw [print, if_neg (Nat.not_lt.mpr hp)]
    simp only [List.length_append, List.length_cons]
    omega
  | ite _ _ _ _ _ ihc iht ihe =>
    simp only [print, List.length_cons, List.length_append, List.length_nil]
    omega

end RcdServer.Calc.Rust
