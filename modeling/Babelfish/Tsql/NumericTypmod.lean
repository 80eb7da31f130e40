import Babelfish.Lib.DecimalWidth

/-!
# The precision and scale of a numeric expression

`resolve_numeric_typmod_from_exp` works out the precision and scale of an arithmetic expression
from those of its operands, with one rule for each operator and two rules for results that need
more than 38 digits; all of it in 8-bit unsigned numbers.  `CASE`, `UNION` and `VALUES` merge
their branches one after the other in `tsql_select_common_typmod_hook`, and `COALESCE` takes two
maxima over its arguments.

* `resolve_arithmetic`: the widths of every tree of arithmetic operators.
-/

namespace Babelfish.Tsql.NumericTypmod

open Lib

variable {p s : Int}

/-! ### The model -/

/-- A value held in a `uint8_t`. -/
def u8 (n : Int) : Int := n % 256

/-- `(typmod - VARHDRSZ) & 0xffff`. -/
def typmodScale (typmod : Int) : Int := (typmod - 4) % 2 ^ 16

/-- `((typmod - VARHDRSZ) >> 16) & 0xffff`. -/
def typmodPrecision (typmod : Int) : Int := (typmod - 4) / 2 ^ 16 % 2 ^ 16

/-- `((precision << 16) | scale) + VARHDRSZ`; a scale is below `1 << 16`. -/
def makeTypmod (precision scale : Int) : Int := precision * 2 ^ 16 + scale + 4

inductive BinaryOp
  | add
  | sub
  | mul
  | div
  | mod
deriving DecidableEq

inductive UnaryOp
  | plus
  | minus

/-- Types of operands: the two money types without a typmod have widths of their own in
`tsql_select_common_typmod_hook`, and operands that are not exact numbers are passed over. -/
inductive OperandType
  | numeric
  | money
  | smallmoney
  | exact
  | inexact
deriving DecidableEq

inductive Expr
  | operand (type : OperandType) (typmod : Int)
  | binary (op : BinaryOp) (arg1 arg2 : Expr)
  | unary (op : UnaryOp) (arg1 : Expr)
  | coalesce (args : List Expr)
  | caseExpr (resultexprs : List Expr)

def Expr.type : Expr → OperandType
  | .operand type _ => type
  | _ => .numeric

variable (op : BinaryOp)

/-- The `switch` over the operators: precision and scale. -/
def operatorWidths (precision1 scale1 precision2 scale2 : Int) : Int × Int :=
  match op with
  | .add | .sub =>
    let integralDigitCount := u8 (max (precision1 - scale1) (precision2 - scale2))
    let scale := max scale1 scale2
    let precision := u8 (integralDigitCount + 1 + scale)
    let scale :=
      if integralDigitCount > min 38 precision - scale then
        u8 (min precision 38 - integralDigitCount)
      else scale
    (if precision > 38 then 38 else precision, scale)
  | .mul => (u8 (precision1 + precision2 + 1), u8 (scale1 + scale2))
  | .div =>
    let scale := u8 (max 6 (scale1 + precision2 + 1))
    (u8 (precision1 - scale1 + scale2 + scale), scale)
  | .mod =>
    let scale := max scale1 scale2
    (u8 (min (precision1 - scale1) (precision2 - scale2) + scale), scale)

/-- The rules for a precision above 38. -/
def adjustWidths (precision scale : Int) : Int × Int :=
  if precision > 38 then
    if precision - scale ≤ 32 then (38, u8 (min scale (38 - (precision - scale))))
    else if scale ≤ 6 then (38, scale)
    else (38, 6)
  else (precision, scale)

/-- The precision and scale of an operand, and those of the other one if it has no typmod. -/
def operandWidths (typmod other : Int) : Int × Int :=
  let typmod := if typmod = -1 then other else typmod
  (u8 (typmodPrecision typmod), u8 (typmodScale typmod))

/-- The result of an operator.  Its result type is `numeric`, so an operand is too, and two
operands without typmods get `tds_default_numeric_precision` and `tds_default_numeric_scale`. -/
def binaryTypmod (typmod1 typmod2 : Int) : Int :=
  if typmod1 = -1 ∧ typmod2 = -1 then makeTypmod 38 8
  else
    let w1 := operandWidths typmod1 typmod2
    let w2 := operandWidths typmod2 typmod1
    let w := operatorWidths op w1.1 w1.2 w2.1 w2.2
    let w := adjustWidths w.1 w.2
    makeTypmod w.1 w.2

def unaryTypmod (typmod1 : Int) : Int :=
  if typmod1 = -1 then makeTypmod 38 8
  else
    let w := adjustWidths (u8 (typmodPrecision typmod1)) (u8 (typmodScale typmod1))
    makeTypmod w.1 w.2

/-- One turn of the loop over the arguments of a `COALESCE`; the state is
`max_integral_precision` and `max_scale`, and an argument without a typmod ends the loop. -/
def coalesceStep (st : Int × Int) (argTypmod : Int) : Option (Int × Int) :=
  if argTypmod = -1 then none
  else if argTypmod = 0 then some st
  else
    let scale := u8 (typmodScale argTypmod)
    let precision := u8 (typmodPrecision argTypmod)
    some (u8 (max (precision - scale) st.1), max scale st.2)

def coalesceTypmod (argTypmods : List Int) : Int :=
  match argTypmods.foldlM coalesceStep (0, 0) with
  | some (maxIntegralPrecision, maxScale) =>
    makeTypmod (maxIntegralPrecision + maxScale) maxScale
  | none => -1

/-- Precision and scale of a branch; `none` for a branch that is passed over. -/
def branchWidths (type : OperandType) (typmod : Int) : Option (Int × Int) :=
  if typmod = -1 ∧ type = .money then some (19, 4)
  else if typmod = -1 ∧ type = .smallmoney then some (10, 4)
  else if typmod = -1 ∨ type = .inexact then none
  else some (typmodPrecision typmod, typmodScale typmod)

/-- The loop variables of `tsql_select_common_typmod_hook`. -/
structure Common where
  maxPrecision : Int := 0
  maxScale : Int := 0
  numericResultTypmod : Int := -1

def Common.step (st : Common) (branch : OperandType × Int) : Common :=
  match branchWidths branch.1 branch.2 with
  | none => st
  | some (precision, scale) =>
    let integralDigitCount := max (precision - scale) (st.maxPrecision - st.maxScale)
    let maxScale := max st.maxScale scale
    let maxPrecision := integralDigitCount + maxScale
    let maxScale := if maxPrecision > 38 then max 0 (maxScale - (maxPrecision - 38)) else maxScale
    let maxPrecision := if maxPrecision > 38 then 38 else maxPrecision
    ⟨maxPrecision, maxScale, makeTypmod maxPrecision maxScale⟩

def selectCommonTypmod (branches : List (OperandType × Int)) : Int :=
  (branches.foldl Common.step {}).numericResultTypmod

/-- PostgreSQL's typmod of a `CASE` or `COALESCE`: that of the branches if they agree on the
result's type and on a typmod. -/
def agreedTypmod : List (OperandType × Int) → Int
  | [] => -1
  | b :: bs => if 0 ≤ b.2 ∧ ∀ c ∈ b :: bs, c = (.numeric, b.2) then b.2 else -1

mutual

/-- PostgreSQL's `exprTypmod`. -/
def exprTypmod : Expr → Int
  | .operand _ typmod => typmod
  | .binary _ _ _ | .unary _ _ => -1
  | .coalesce args => agreedTypmod (exprTypmods args)
  | .caseExpr resultexprs => agreedTypmod (exprTypmods resultexprs)

def exprTypmods : List Expr → List (OperandType × Int)
  | [] => []
  | e :: es => (e.type, exprTypmod e) :: exprTypmods es

end

mutual

/-- `resolve_numeric_typmod_from_exp`. -/
def resolve : Expr → Int
  | .operand _ typmod => typmod
  | .binary op arg1 arg2 => binaryTypmod op (resolve arg1) (resolve arg2)
  | .unary _ arg1 => unaryTypmod (resolve arg1)
  | .coalesce args => coalesceTypmod (resolveArgs args)
  | .caseExpr resultexprs => selectCommonTypmod (resolveBranches resultexprs)

def resolveArgs : List Expr → List Int
  | [] => []
  | e :: es => resolve e :: resolveArgs es

/-- The typmods the hook works with: it resolves the branches that have none. -/
def resolveBranches : List Expr → List (OperandType × Int)
  | [] => []
  | e :: es =>
    (e.type, if exprTypmod e = -1 then resolve e else exprTypmod e) :: resolveBranches es

end

/-! ### Widths and typmods -/

def Valid (precision scale : Int) : Prop :=
  1 ≤ precision ∧ precision ≤ 38 ∧ 0 ≤ scale ∧ scale ≤ precision

theorem typmodPrecision_make (hp : 0 ≤ p ∧ p ≤ 76) (hs : 0 ≤ s ∧ s ≤ p) :
    typmodPrecision (makeTypmod p s) = p := by
  unfold typmodPrecision makeTypmod
  omega

theorem typmodScale_make (hp : 0 ≤ p ∧ p ≤ 76) (hs : 0 ≤ s ∧ s ≤ p) :
    typmodScale (makeTypmod p s) = s := by
  unfold typmodScale makeTypmod
  omega

theorem makeTypmod_pos (hp : 0 ≤ p) (hs : 0 ≤ s) : 0 < makeTypmod p s := by
  unfold makeTypmod
  omega

theorem u8_of_le {n : Int} (h : 0 ≤ n ∧ n ≤ 255) : u8 n = n := by
  unfold u8
  omega

theorem operandWidths_make {other : Int} (h : Valid p s) :
    operandWidths (makeTypmod p s) other = (p, s) := by
  obtain ⟨hp, hp', hs, hs'⟩ := h
  have hpos := makeTypmod_pos (p := p) (by omega) hs
  unfold operandWidths
  rw [if_neg (by omega)]
  dsimp only
  rw [typmodPrecision_make (by omega) ⟨hs, hs'⟩, typmodScale_make (by omega) ⟨hs, hs'⟩,
    u8_of_le (by omega), u8_of_le (by omega)]

/-! ### Arithmetic -/

/-- What an operator needs for the exact result: precision and scale. -/
def fullWidths (p1 s1 p2 s2 : Int) : Int × Int :=
  match op with
  | .add | .sub => (max (p1 - s1) (p2 - s2) + 1 + max s1 s2, max s1 s2)
  | .mul => (p1 + p2 + 1, s1 + s2)
  | .div => (p1 - s1 + s2 + max 6 (s1 + p2 + 1), max 6 (s1 + p2 + 1))
  | .mod => (min (p1 - s1) (p2 - s2) + max s1 s2, max s1 s2)

/-- The integral digits to be kept: those of the operands for a sum or difference, and those of
the result for the other operators. -/
def integralDigits (p1 s1 p2 s2 : Int) : Int :=
  match op with
  | .add | .sub => max (p1 - s1) (p2 - s2)
  | _ => (fullWidths op p1 s1 p2 s2).1 - (fullWidths op p1 s1 p2 s2).2

/-- A result of at most 38 digits is exact, and a longer one is cut to 38 digits with at least
32 of the integral ones. -/
theorem binaryTypmod_make {p1 s1 p2 s2 : Int} (h1 : Valid p1 s1) (h2 : Valid p2 s2) :
    ∃ p s, binaryTypmod op (makeTypmod p1 s1) (makeTypmod p2 s2) = makeTypmod p s ∧ Valid p s ∧
      ((fullWidths op p1 s1 p2 s2).1 ≤ 38 → (p, s) = fullWidths op p1 s1 p2 s2) ∧
      (38 < (fullWidths op p1 s1 p2 s2).1 → min (integralDigits op p1 s1 p2 s2) 32 ≤ p - s) := by
  have hne : ¬(makeTypmod p1 s1 = -1 ∧ makeTypmod p2 s2 = -1) := by
    have hpos := makeTypmod_pos (p := p1) (s := s1) (by have := h1.1; omega) h1.2.2.1
    omega
  unfold binaryTypmod
  rw [if_neg hne, operandWidths_make h1, operandWidths_make h2]
  refine ⟨_, _, rfl, ?_⟩
  dsimp only
  unfold Valid at *
  cases op
  all_goals
    unfold integralDigits fullWidths operatorWidths adjustWidths u8
    dsimp only
    rw [Prod.mk.injEq]
    refine ⟨?_, fun hle => ?_, fun hlt => ?_⟩
    all_goals
      split_ifs
      all_goals omega

theorem Valid.precision (h : Valid p s) : typmodPrecision (makeTypmod p s) = p := by
  unfold Valid at h
  exact typmodPrecision_make (by omega) (by omega)

theorem Valid.scale (h : Valid p s) : typmodScale (makeTypmod p s) = s := by
  unfold Valid at h
  exact typmodScale_make (by omega) (by omega)

theorem unaryTypmod_make (h : Valid p s) : unaryTypmod (makeTypmod p s) = makeTypmod p s := by
  obtain ⟨hp, hp', hs, hs'⟩ := h
  have hpos := makeTypmod_pos (p := p) (by omega) hs
  unfold unaryTypmod adjustWidths
  rw [if_neg (by omega), typmodPrecision_make (by omega) ⟨hs, hs'⟩, typmodScale_make (by omega) ⟨hs,
    hs'⟩, u8_of_le (by omega), u8_of_le (by omega), if_neg (by omega)]

/-- Trees of arithmetic operators over operands of declared numeric types. -/
inductive Arithmetic : Expr → Prop
  | operand {p s : Int} (h : Valid p s) : Arithmetic (.operand .numeric (makeTypmod p s))
  | binary (op : BinaryOp) {a b : Expr} (ha : Arithmetic a) (hb : Arithmetic b) :
    Arithmetic (.binary op a b)
  | unary (op : UnaryOp) {a : Expr} (ha : Arithmetic a) : Arithmetic (.unary op a)

def IsValue (v : ℚ) (precision scale : Int) : Prop :=
  HasDigits v (precision - scale).toNat scale.toNat

/-- The exact values of a tree, for any values of its operands. -/
inductive Evaluates : Expr → ℚ → Prop
  | operand {type : OperandType} {typmod : Int} {v : ℚ}
    (h : IsValue v (typmodPrecision typmod) (typmodScale typmod)) :
    Evaluates (.operand type typmod) v
  | add {a b : Expr} {x y : ℚ} (ha : Evaluates a x) (hb : Evaluates b y) :
    Evaluates (.binary .add a b) (x + y)
  | sub {a b : Expr} {x y : ℚ} (ha : Evaluates a x) (hb : Evaluates b y) :
    Evaluates (.binary .sub a b) (x - y)
  | mul {a b : Expr} {x y : ℚ} (ha : Evaluates a x) (hb : Evaluates b y) :
    Evaluates (.binary .mul a b) (x * y)
  | div {a b : Expr} {x y : ℚ} (ha : Evaluates a x) (hb : Evaluates b y) (h : y ≠ 0) :
    Evaluates (.binary .div a b) (x / y)
  | mod {a b : Expr} {x y r : ℚ} (ha : Evaluates a x) (hb : Evaluates b y)
    (h : IsRemainder x y r) : Evaluates (.binary .mod a b) r
  | plus {a : Expr} {x : ℚ} (ha : Evaluates a x) : Evaluates (.unary .plus a) x
  | minus {a : Expr} {x : ℚ} (ha : Evaluates a x) : Evaluates (.unary .minus a) (-x)

/-- What the operator at the top of a tree needs for the exact result. -/
def nodeWidths (a b : Expr) : Int × Int :=
  fullWidths op (typmodPrecision (resolve a)) (typmodScale (resolve a))
    (typmodPrecision (resolve b)) (typmodScale (resolve b))

/-- No node is a division, and none needs more than 38 digits. -/
def Uncapped : Expr → Prop
  | .binary op a b => op ≠ .div ∧ (nodeWidths op a b).1 ≤ 38 ∧ Uncapped a ∧ Uncapped b
  | .unary _ a => Uncapped a
  | _ => True

theorem IsValue.of_eq {v : ℚ} {i s : ℕ} {p' s' : Int} (h : HasDigits v i s)
    (hi : (i : Int) ≤ p' - s') (hs : (s : Int) = s') : IsValue v p' s' :=
  h.mono (by omega) (by omega)

theorem evaluates_binary {op : BinaryOp} {a b : Expr} {v : ℚ} {p1 s1 p2 s2 : Int}
    (h1 : Valid p1 s1) (h2 : Valid p2 s2) (hop : op ≠ .div) (h : Evaluates (.binary op a b) v)
    (ha : ∀ x, Evaluates a x → IsValue x p1 s1) (hb : ∀ y, Evaluates b y → IsValue y p2 s2) :
    IsValue v (fullWidths op p1 s1 p2 s2).1 (fullWidths op p1 s1 p2 s2).2 := by
  unfold Valid at h1 h2
  cases h with
  | add ha' hb' =>
    refine .of_eq ((ha _ ha').add (hb _ hb')) ?_ ?_
    all_goals
      unfold fullWidths
      dsimp only
      omega
  | sub ha' hb' =>
    rw [sub_eq_add_neg]
    refine .of_eq ((ha _ ha').add (hb _ hb').neg) ?_ ?_
    all_goals
      unfold fullWidths
      dsimp only
      omega
  | mul ha' hb' =>
    refine .of_eq ((ha _ ha').mul (hb _ hb')) ?_ ?_
    all_goals
      unfold fullWidths
      dsimp only
      omega
  | div ha' hb' hy => exact absurd rfl hop
  | mod ha' hb' hr =>
    refine .of_eq ((ha _ ha').rem (hb _ hb') hr) ?_ ?_
    all_goals
      unfold fullWidths
      dsimp only
      omega

/-- **The widths of an arithmetic expression.**  They are those of a numeric type; a tree without
division and without a node of more than 38 digits has values of that type; and a node that needs
more than 38 digits keeps its integral digits, or 32 of them. -/
theorem resolve_arithmetic {e : Expr} (h : Arithmetic e) :
    ∃ p s, resolve e = makeTypmod p s ∧ Valid p s ∧
      (Uncapped e → ∀ v, Evaluates e v → IsValue v p s) ∧
      ∀ op a b, e = .binary op a b → 38 < (nodeWidths op a b).1 →
        min (integralDigits op (typmodPrecision (resolve a)) (typmodScale (resolve a))
          (typmodPrecision (resolve b)) (typmodScale (resolve b))) 32 ≤ p - s := by
  induction h with
  | @operand p s hv =>
    refine ⟨p, s, by rw [resolve], hv, fun _ v hval => ?_, fun op a b he => by cases he⟩
    cases hval with
    | operand hval => rwa [hv.precision, hv.scale] at hval
  | @binary op a b ha hb iha ihb =>
    obtain ⟨p1, s1, hr1, hv1, hval1, -⟩ := iha
    obtain ⟨p2, s2, hr2, hv2, hval2, -⟩ := ihb
    obtain ⟨p, s, hr, hv, hfull, hcap⟩ := binaryTypmod_make op hv1 hv2
    have hnode : nodeWidths op a b = fullWidths op p1 s1 p2 s2 := by
      unfold nodeWidths
      rw [hr1, hr2, hv1.precision, hv1.scale, hv2.precision, hv2.scale]
    refine ⟨p, s, by rw [resolve, hr1, hr2, hr], hv, ?_, ?_⟩
    · rintro ⟨hop, hle, hua, hub⟩ v heval
      rw [hnode] at hle
      have hps := hfull hle
      have hval := evaluates_binary hv1 hv2 hop heval (hval1 hua) (hval2 hub)
      rwa [← hps] at hval
    · rintro op' a' b' ⟨⟩ hlt
      rw [hnode] at hlt
      rw [hr1, hr2, hv1.precision, hv1.scale, hv2.precision, hv2.scale]
      exact hcap hlt
  | @unary op a ha iha =>
    obtain ⟨p, s, hr, hv, hval, -⟩ := iha
    refine ⟨p, s, by rw [resolve, hr, unaryTypmod_make hv], hv, fun hu v heval => ?_,
      fun op a b he => by cases he⟩
    cases heval with
    | plus h => exact hval hu _ h
    | minus h => exact (hval hu _ h).neg

/-- `(a + b) * -c` with operands of types `numeric(5,2)`, `numeric(4,0)` and `numeric(3,3)`. -/
theorem resolve_arithmetic_product :
    ∃ p s, resolve (.binary .mul
        (.binary .add (.operand .numeric (makeTypmod 5 2)) (.operand .numeric (makeTypmod 4 0)))
        (.unary .minus (.operand .numeric (makeTypmod 3 3)))) = makeTypmod p s ∧ Valid p s := by
  have hsum : Arithmetic (.binary .add (.operand .numeric (makeTypmod 5 2))
      (.operand .numeric (makeTypmod 4 0))) :=
    .binary .add (.operand (by unfold Valid; decide)) (.operand (by unfold Valid; decide))
  have hsign : Arithmetic (.unary .minus (.operand .numeric (makeTypmod 3 3))) :=
    .unary .minus (.operand (by unfold Valid; decide))
  obtain ⟨p, s, hr, hv, -⟩ := resolve_arithmetic (.binary .mul hsum hsign)
  exact ⟨p, s, hr, hv⟩

end Babelfish.Tsql.NumericTypmod
