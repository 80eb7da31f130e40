import Babelfish.Lib.Wrap

/-!
# The product of two amounts of money

An amount is stored as a 64-bit integer that counts ten-thousandths.  `fixeddecimalmul` computes the
product in 128 bits and divides it by 10000, but decides from another expression, in 64 bits, and
from the sign of the quotient, how to round it.

* `roundResult_eq`, `fixeddecimalmul_eq`: what the functions compute.
* `multiply_exact_iff`: for which amounts the product is the rounded one.
-/

namespace Babelfish.Money

open Lib

variable {a b : Int} {w : Nat}

inductive ArithmeticError where
  | fixeddecimalOutOfRange
  | smallmoneyOutOfRange
deriving DecidableEq, Repr

def ArithmeticError.message : ArithmeticError → String
  | fixeddecimalOutOfRange => "fixeddecimal out of range"
  | smallmoneyOutOfRange => "smallmoney out of range"

def fixeddecimalMultiplier : Int := 10000

def fixeddecimalRoundup : Nat := 5000

/-- `abs((arg1%FIXEDDECIMAL_MULTIPLIER * arg2%FIXEDDECIMAL_MULTIPLIER) % FIXEDDECIMAL_MULTIPLIER)
>= FIXEDDECIMAL_ROUNDUP`.  `%` and `*` associate to the left, and the product has 64 bits. -/
def roundsUp (arg1 arg2 : Int) : Bool :=
  fixeddecimalRoundup ≤ (((wrap 64 (arg1.tmod fixeddecimalMultiplier * arg2)).tmod
    fixeddecimalMultiplier).tmod fixeddecimalMultiplier).natAbs

/-- One is added to the absolute value of the quotient, or so. -/
def roundResult (arg1 arg2 result : Int) : Int :=
  if roundsUp arg1 arg2 then if result < 0 then result - 1 else result + 1 else result

/-- `fixeddecimalmul`.  A product of 64-bit numbers fits in 128 bits. -/
def fixeddecimalmul (arg1 arg2 : Int) : Except ArithmeticError Int :=
  let result := roundResult arg1 arg2 ((arg1 * arg2).tdiv fixeddecimalMultiplier)
  if result ≠ wrap 64 result then .error .fixeddecimalOutOfRange else .ok result

def smallmoneymul (arg1 arg2 : Int) : Except ArithmeticError Int :=
  let result := roundResult arg1 arg2 ((wrap 64 (arg1 * arg2)).tdiv fixeddecimalMultiplier)
  if result > 2147483647 ∨ result < -2147483648 then .error .smallmoneyOutOfRange else .ok result

/-! ### The rounding -/

/-- The product of two amounts, rounded half away from zero. -/
def product (a b : Int) : Int := roundHalfAway (a * b) 10000

/-- The number, of ten-thousandths of ten-thousandths, is rounded away from zero. -/
def RoundsAway (x : Int) : Prop := 5000 ≤ (x.tmod 10000).natAbs

instance (x : Int) : Decidable (RoundsAway x) := inferInstanceAs (Decidable (_ ≤ _))

/-- The product is negative and becomes -1, with a quotient that is 0. -/
def RoundsToMinusOne (x : Int) : Prop := -10000 < x ∧ x ≤ -5000

instance (x : Int) : Decidable (RoundsToMinusOne x) := inferInstanceAs (Decidable (_ ∧ _))

theorem product_eq :
    product a b = (a * b).tdiv 10000 + if RoundsAway (a * b) then (a * b).sign else 0 := by
  rw [product, roundHalfAway_eq (by decide)]
  congr 1
  apply if_congr _ rfl rfl
  unfold RoundsAway
  push_cast
  omega

theorem roundsUp_iff : roundsUp a b ↔ RoundsAway (wrap 64 (a.tmod 10000 * b)) := by
  unfold roundsUp RoundsAway fixeddecimalMultiplier fixeddecimalRoundup
  rw [decide_eq_true_iff, Int.tmod_tmod]

/-- The decision is the right one when the product of 64 bits does not overflow. -/
theorem roundsAway_tmod_mul : RoundsAway (a.tmod 10000 * b) ↔ RoundsAway (a * b) := by
  unfold RoundsAway
  rw [Int.natAbs_tmod, Int.natAbs_tmod, Int.natAbs_mul, Int.natAbs_mul, Int.natAbs_tmod]
  rw [Nat.mod_mul_mod]

theorem roundResult_eq (h : ¬ RoundsToMinusOne (a * b))
    (hround : roundsUp a b ↔ RoundsAway (a * b)) :
    roundResult a b ((a * b).tdiv 10000) = product a b := by
  obtain ⟨hdiv, hpos, hneg⟩ := tdiv_tmod_spec (a * b) (m := 10000) (by decide)
  unfold roundResult
  rw [product_eq, if_congr hround rfl rfl]
  unfold RoundsToMinusOne at h
  by_cases haway : RoundsAway (a * b)
  · rw [if_pos haway, if_pos haway]
    unfold RoundsAway at haway
    rcases Int.lt_trichotomy (a * b) 0 with hlt | heq | hgt
    · rw [Int.sign_eq_neg_one_of_neg hlt, if_pos (by omega)]
      rfl
    · rw [heq] at haway
      exact absurd haway (by decide)
    · rw [Int.sign_eq_one_of_pos hgt, if_neg (by omega)]
  · rw [if_neg haway, if_neg haway, Int.add_zero]

theorem fits_of_fits {q x : Int} (hpos : 0 < q → q ≤ x) (hneg : q < 0 → x ≤ q) (h : Fits w x) :
    Fits w q := by
  obtain ⟨hlow, hhigh⟩ := h
  have hpow : (0 : Int) < 2 ^ (w - 1) := by positivity
  unfold Fits
  rcases Int.lt_trichotomy q 0 with hq | hq | hq
  · have := hneg hq
    omega
  · omega
  · have := hpos hq
    omega

theorem fits_quotient_of_fits_product (h : Fits w (product a b)) : Fits w ((a * b).tdiv 10000) := by
  obtain ⟨hdiv, hpos, hneg⟩ := tdiv_tmod_spec (a * b) (m := 10000) (by decide)
  rw [product_eq] at h
  refine fits_of_fits (fun hq => ?_) (fun hq => ?_) h
  · have hsign : 0 ≤ (a * b).sign := Int.sign_nonneg_iff.mpr (by omega)
    split <;> omega
  · have hsign : (a * b).sign = -1 := Int.sign_eq_neg_one_of_neg (by omega)
    split <;> omega

theorem fits_quotient_of_fits_roundResult {q : Int} (h : Fits w (roundResult a b q)) :
    Fits w q := by
  unfold roundResult at h
  refine fits_of_fits (fun hq => ?_) (fun hq => ?_) h
  · split
    · rw [if_neg (by omega)]
      omega
    · omega
  · rw [if_pos hq]
    split <;> omega

theorem roundResult_ne_of_minusOne (h : RoundsToMinusOne (a * b)) :
    product a b = -1 ∧ roundResult a b ((a * b).tdiv 10000) ≠ -1 := by
  obtain ⟨hdiv, -, hneg⟩ := tdiv_tmod_spec (a * b) (m := 10000) (by decide)
  obtain ⟨hlow, hhigh⟩ := h
  have hq : (a * b).tdiv 10000 = 0 := by omega
  have haway : RoundsAway (a * b) := by
    unfold RoundsAway
    omega
  rw [product_eq, if_pos haway, hq, Int.sign_eq_neg_one_of_neg (by omega)]
  refine ⟨rfl, ?_⟩
  unfold roundResult
  split <;> decide

theorem roundResult_ne_of_decision (h : ¬ (roundsUp a b ↔ RoundsAway (a * b))) :
    roundResult a b ((a * b).tdiv 10000) ≠ product a b := by
  unfold roundResult
  rw [product_eq]
  by_cases haway : RoundsAway (a * b)
  · have hup : ¬ roundsUp a b = true := fun hup => h ⟨fun _ => haway, fun _ => hup⟩
    have hne : (a * b).sign ≠ 0 := by
      intro hzero
      rw [Int.sign_eq_zero_iff_zero.mp hzero] at haway
      exact absurd haway (by decide)
    rw [if_neg hup, if_pos haway]
    omega
  · have hup : roundsUp a b = true := by
      by_contra hup
      exact h ⟨fun h => absurd h hup, fun h => absurd h haway⟩
    rw [if_pos hup, if_neg haway]
    split <;> omega

/-! ### The law -/

/-- The product is the rounded one, or the error when that does not fit. -/
def MulExact (a b : Int) : Prop :=
  fixeddecimalmul a b =
    if Fits 64 (product a b) then .ok (product a b) else .error .fixeddecimalOutOfRange

def SmallMulExact (a b : Int) : Prop :=
  smallmoneymul a b =
    if Fits 32 (product a b) then .ok (product a b) else .error .smallmoneyOutOfRange

theorem fixeddecimalmul_eq :
    fixeddecimalmul a b =
      if Fits 64 (roundResult a b ((a * b).tdiv 10000))
      then .ok (roundResult a b ((a * b).tdiv 10000)) else .error .fixeddecimalOutOfRange := by
  rw [← ite_not, if_congr (not_congr (wrap_eq_self_iff (by decide)).symm) rfl rfl,
    if_congr (not_congr eq_comm) rfl rfl]
  rfl

theorem ite_fits_eq_iff {e : ArithmeticError} {x y : Int} :
    (if Fits w x then Except.ok x else .error e) = (if Fits w y then .ok y else .error e) ↔
      x = y ∨ ¬ Fits w x ∧ ¬ Fits w y := by
  by_cases hx : Fits w x <;> by_cases hy : Fits w y
  · simp [hx, hy]
  · simp only [hx, hy, if_true, if_false]
    constructor
    · intro h
      cases h
    · rintro (rfl | ⟨h, -⟩)
      · exact absurd hx hy
      · exact absurd trivial h
  · simp only [hx, hy, if_true, if_false]
    constructor
    · intro h
      cases h
    · rintro (rfl | ⟨-, h⟩)
      · exact absurd hy hx
      · exact absurd trivial h
  · simp [hx, hy]

theorem mulExact_iff (a b : Int) :
    MulExact a b ↔ ¬ RoundsToMinusOne (a * b) ∧
      ((roundsUp a b ↔ RoundsAway (a * b)) ∨ ¬ Fits 64 ((a * b).tdiv 10000)) := by
  rw [MulExact, fixeddecimalmul_eq, ite_fits_eq_iff]
  constructor
  · intro h
    have hrange : ¬ RoundsToMinusOne (a * b) := by
      intro hr
      obtain ⟨hone, hne⟩ := roundResult_ne_of_minusOne hr
      rw [hone] at h
      rcases h with h | ⟨-, h⟩
      · exact hne h
      · exact h (by decide)
    refine ⟨hrange, ?_⟩
    by_cases hround : roundsUp a b ↔ RoundsAway (a * b)
    · exact .inl hround
    · right
      rcases h with h | ⟨hx, hy⟩
      · exact absurd h (roundResult_ne_of_decision hround)
      · -- one of the two is the quotient itself
        intro hq
        by_cases hup : roundsUp a b = true
        · have haway : ¬ RoundsAway (a * b) := fun ha => hround ⟨fun _ => ha, fun _ => hup⟩
          rw [product_eq, if_neg haway, Int.add_zero] at hy
          exact hy hq
        · rw [roundResult, if_neg hup] at hx
          exact hx hq
  · rintro ⟨hrange, hround | hfits⟩
    · exact .inl (roundResult_eq hrange hround)
    · exact .inr ⟨fun h => hfits (fits_quotient_of_fits_roundResult h),
        fun h => hfits (fits_quotient_of_fits_product h)⟩

theorem smallMulExact_iff (ha : Fits 32 a) (hb : Fits 32 b) :
    SmallMulExact a b ↔ ¬ RoundsToMinusOne (a * b) := by
  have habs : (a * b).natAbs ≤ 2147483648 * 2147483648 := by
    rw [Int.natAbs_mul]
    rw [fits_32] at ha hb
    exact Nat.mul_le_mul (by omega) (by omega)
  have hfits : Fits 64 (a * b) := by
    rw [fits_64]
    omega
  have hround : roundsUp a b ↔ RoundsAway (a * b) := by
    obtain ⟨-, hpos, hneg⟩ := tdiv_tmod_spec a (m := 10000) (by decide)
    have hsmall : (a.tmod 10000 * b).natAbs ≤ 10000 * 2147483648 := by
      rw [Int.natAbs_mul]
      rw [fits_32] at ha hb
      exact Nat.mul_le_mul (by omega) (by omega)
    rw [roundsUp_iff, wrap_eq_self (by decide) (by rw [fits_64]; omega), roundsAway_tmod_mul]
  have hcheck : smallmoneymul a b =
      if Fits 32 (roundResult a b ((a * b).tdiv 10000))
      then .ok (roundResult a b ((a * b).tdiv 10000)) else .error .smallmoneyOutOfRange := by
    unfold smallmoneymul
    rw [wrap_eq_self (by decide) hfits, ← ite_not]
    apply if_congr _ rfl rfl
    rw [fits_32]
    unfold fixeddecimalMultiplier
    omega
  rw [SmallMulExact, hcheck, ite_fits_eq_iff]
  constructor
  · intro h hr
    obtain ⟨hone, hne⟩ := roundResult_ne_of_minusOne hr
    rw [hone] at h
    rcases h with h | ⟨-, h⟩
    · exact hne h
    · exact h (by decide)
  · intro h
    exact .inl (roundResult_eq h hround)

/-- **For which amounts the product is the rounded one**: not for a product that becomes -1, and
otherwise when the 64-bit product of the remainder and the other amount, wrapped, is rounded as the
product is, or when the quotient does not fit anyway; for small amounts, only the first matters. -/
theorem multiply_exact_iff (a b : Int) :
    (Fits 64 a → Fits 64 b →
      (MulExact a b ↔ ¬ RoundsToMinusOne (a * b) ∧
        ((RoundsAway (wrap 64 (a.tmod 10000 * b)) ↔ RoundsAway (a * b)) ∨
          ¬ Fits 64 ((a * b).tdiv 10000)))) ∧
    (Fits 32 a → Fits 32 b → (SmallMulExact a b ↔ ¬ RoundsToMinusOne (a * b))) := by
  refine ⟨fun _ _ => ?_, smallMulExact_iff⟩
  rw [mulExact_iff, roundsUp_iff]

/-- -0.01 times 0.005 is -0.00005, which is rounded to 0.0001. -/
theorem minus_half_rounds_up :
    fixeddecimalmul (-100) 50 = .ok 1 ∧ product (-100) 50 = -1 ∧
      smallmoneymul (-100) 50 = .ok 1 := by
  decide +kernel

/-- 1 times 1, and 0.01 times 0.005. -/
theorem multiply_exact_iff_small :
    MulExact 10000 10000 ∧ SmallMulExact 100 50 := by
  constructor
  · exact ((multiply_exact_iff 10000 10000).1 (by decide) (by decide)).mpr (by decide +kernel)
  · exact ((multiply_exact_iff 100 50).2 (by decide) (by decide)).mpr (by decide +kernel)

end Babelfish.Money
