import Mathlib.Tactic.Positivity
import Mathlib.Tactic.Ring

/-!
# Machine integers and rounding

C's signed integers of `w` bits are integers in a range; arithmetic that leaves the range wraps
around, which is the balanced residue modulo `2 ^ w`.  C's division rounds towards zero.

* `wrap_eq_self_iff`: what wrapping leaves alone.
* `exists_wrap`: a wrapped number is off by a multiple of `2 ^ w`.
* `roundHalfAway_eq`: rounding half away from zero from the quotient and the remainder.
-/

namespace Babelfish.Lib

variable {x : Int} {w : Nat}

/-! ### Ranges -/

/-- The number fits in `w` bits. -/
def Fits (w : Nat) (x : Int) : Prop := -2 ^ (w - 1) ≤ x ∧ x < 2 ^ (w - 1)

instance (w : Nat) (x : Int) : Decidable (Fits w x) := inferInstanceAs (Decidable (_ ∧ _))

/-- What a register of `w` bits holds. -/
def wrap (w : Nat) (x : Int) : Int := x.bmod (2 ^ w)

theorem fits_64 : Fits 64 x ↔ -9223372036854775808 ≤ x ∧ x ≤ 9223372036854775807 := by
  unfold Fits
  norm_num
  omega

theorem fits_32 : Fits 32 x ↔ -2147483648 ≤ x ∧ x ≤ 2147483647 := by
  unfold Fits
  norm_num
  omega

theorem wrap_eq_self (hw : 0 < w) (h : Fits w x) : wrap w x = x := by
  obtain ⟨w, rfl⟩ : ∃ v, w = v + 1 := ⟨w - 1, by omega⟩
  obtain ⟨hlow, hhigh⟩ := h
  rw [Nat.add_sub_cancel] at hlow hhigh
  apply Int.bmod_eq_of_le_mul_two
  all_goals
    push_cast
    rw [pow_succ]
    omega

theorem fits_wrap (hw : 0 < w) (x : Int) : Fits w (wrap w x) := by
  obtain ⟨w, rfl⟩ : ∃ v, w = v + 1 := ⟨w - 1, by omega⟩
  have hpos : (0 : Int) < 2 ^ w := by positivity
  have hlow := @Int.le_bmod x (2 ^ (w + 1)) (by positivity)
  have hhigh := @Int.bmod_lt x (2 ^ (w + 1)) (by positivity)
  have hpow : (2 : Int) ^ (w + 1) = 2 * 2 ^ w := by rw [pow_succ, mul_comm]
  unfold Fits wrap
  rw [Nat.add_sub_cancel]
  push_cast at hlow hhigh
  omega

/-- **Wrapping leaves alone what fits, and only that.** -/
theorem wrap_eq_self_iff (hw : 0 < w) : wrap w x = x ↔ Fits w x := by
  constructor
  · intro h
    rw [← h]
    exact fits_wrap hw x
  · exact wrap_eq_self hw

theorem exists_wrap (w : Nat) (x : Int) : ∃ k, wrap w x = x - 2 ^ w * k := by
  refine ⟨x.bdiv (2 ^ w), ?_⟩
  have h := Int.bdiv_add_bmod x (2 ^ w)
  push_cast at h
  unfold wrap
  omega

/-! ### Division towards zero, and rounding -/

theorem tdiv_tmod_spec (x : Int) {m : Int} (hm : 0 < m) :
    m * x.tdiv m + x.tmod m = x ∧ (0 ≤ x → 0 ≤ x.tmod m ∧ x.tmod m < m) ∧
      (x ≤ 0 → -m < x.tmod m ∧ x.tmod m ≤ 0) := by
  refine ⟨Int.mul_tdiv_add_tmod x m, fun hx => ?_, fun hx => ?_⟩
  · exact ⟨Int.tmod_nonneg m hx, Int.tmod_lt_of_pos x hm⟩
  · have hneg := Int.neg_tmod x m
    have h1 := Int.tmod_nonneg m (a := -x) (by omega)
    have h2 := Int.tmod_lt_of_pos (-x) hm
    omega

/-- The quotient `x / m`, rounded to the nearest integer and half away from zero. -/
def roundHalfAway (x : Int) (m : Nat) : Int := x.sign * ((2 * x.natAbs + m) / (2 * m) : Nat)

/-- The quotient towards zero is one off when the remainder is half of the divisor or more. -/
theorem two_mul_add_div {n m : Nat} (hm : 0 < m) :
    (2 * n + m) / (2 * m) = n / m + if m ≤ 2 * (n % m) then 1 else 0 := by
  have hlt : m < 2 * m := by omega
  rw [Nat.add_div (by omega), Nat.mul_div_mul_left _ _ two_pos, Nat.mul_mod_mul_left,
    Nat.div_eq_of_lt hlt, Nat.mod_eq_of_lt hlt, Nat.add_zero]
  congr 2
  exact propext (by omega)

theorem tdiv_eq_sign_mul {m : Nat} : x.tdiv m = x.sign * (x.natAbs / m : Nat) := by
  have hnat : ∀ n : Nat, (n : Int).tdiv m = (n : Int).sign * (n / m : Nat) := by
    intro n
    rcases Nat.eq_zero_or_pos n with rfl | hn
    · simp
    · rw [Int.sign_natCast_of_ne_zero (by omega), one_mul]
      rfl
  rcases Int.eq_nat_or_neg x with ⟨n, rfl | rfl⟩
  · exact hnat n
  · rw [Int.neg_tdiv, hnat, Int.sign_neg, Int.natAbs_neg, Int.natAbs_natCast, neg_mul]

/-- **Rounding half away from zero, from the quotient and the remainder of C.** -/
theorem roundHalfAway_eq {m : Nat} (hm : 0 < m) :
    roundHalfAway x m = x.tdiv m + if m ≤ 2 * (x.tmod m).natAbs then x.sign else 0 := by
  rw [roundHalfAway, two_mul_add_div hm, Int.natAbs_tmod, Int.natAbs_natCast, tdiv_eq_sign_mul]
  split
  all_goals
    push_cast
    ring

end Babelfish.Lib
