import Mathlib.Algebra.Order.Ring.Abs
import Mathlib.Tactic.Linarith
import Mathlib.Tactic.Ring

/-!
# How many digits a result has

A number with a given number of decimal digits in front of the point and behind it, and how many
digits sums, products and remainders of such numbers need at most.

* `HasDigits`: the digits of a number.
* `HasDigits.add`, `HasDigits.mul`, `HasDigits.rem`: the digits of a result.
-/

namespace Babelfish.Lib

/-- `v` has at most `integral` digits in front of the point and `scale` behind it. -/
def HasDigits (v : ℚ) (integral scale : ℕ) : Prop :=
  |v| < 10 ^ integral ∧ ∃ k : ℤ, v * 10 ^ scale = k

/-- `r` is what a division of `a` by `b` leaves: it is smaller than `b`, and has the sign of `a`. -/
def IsRemainder (a b r : ℚ) : Prop :=
  (∃ q : ℤ, a = b * q + r) ∧ |r| < |b| ∧ 0 ≤ a * r

theorem IsRemainder.abs_le {a b r : ℚ} (h : IsRemainder a b r) : |r| ≤ |a| := by
  obtain ⟨⟨q, hq⟩, hlt, hsign⟩ := h
  by_contra hle
  rw [not_le] at hle
  have hq0 : q ≠ 0 := by
    rintro rfl
    rw [Int.cast_zero, mul_zero, zero_add] at hq
    exact absurd hle (by rw [hq]; exact lt_irrefl _)
  -- `a` and `r` have one sign, so their difference is no larger than `r`.
  have hdiff : |a - r| ≤ |r| := by
    have hmul : a * a ≤ a * r := by
      rw [← abs_of_nonneg hsign, abs_mul, ← abs_mul_abs_self a]
      exact mul_le_mul_of_nonneg_left hle.le (abs_nonneg a)
    refine sq_le_sq.mp ?_
    nlinarith
  have hone : (1 : ℚ) ≤ |(q : ℚ)| := by
    rw [← Int.cast_abs]
    exact_mod_cast Int.one_le_abs hq0
  have hbq : |b| ≤ |a - r| := by
    rw [show a - r = b * q by rw [hq]; ring, abs_mul]
    exact le_mul_of_one_le_right (abs_nonneg b) hone
  exact absurd hlt (not_lt.mpr (hbq.trans hdiff))

namespace HasDigits

variable {a b : ℚ} {i j s t : ℕ}

theorem mono (h : HasDigits a i s) (hi : i ≤ j) (hs : s = t) : HasDigits a j t :=
  ⟨h.1.trans_le (pow_le_pow_right₀ (by norm_num) hi), hs ▸ h.2⟩

theorem neg (h : HasDigits a i s) : HasDigits (-a) i s := by
  obtain ⟨k, hk⟩ := h.2
  refine ⟨by rw [abs_neg]; exact h.1, -k, ?_⟩
  rw [neg_mul, hk, Int.cast_neg]

/-- More digits behind the point leave an integer. -/
theorem exists_int (h : HasDigits a i s) (hs : s ≤ t) : ∃ k : ℤ, a * 10 ^ t = k := by
  obtain ⟨k, hk⟩ := h.2
  refine ⟨k * 10 ^ (t - s), ?_⟩
  rw [Int.cast_mul, ← hk, mul_assoc, Int.cast_pow, Int.cast_ofNat, ← pow_add,
    Nat.add_sub_cancel' hs]

section

variable (ha : HasDigits a i s) (hb : HasDigits b j t)
include ha hb

theorem add : HasDigits (a + b) (max i j + 1) (max s t) := by
  obtain ⟨k, hk⟩ := ha.exists_int (le_max_left s t)
  obtain ⟨l, hl⟩ := hb.exists_int (le_max_right s t)
  refine ⟨?_, k + l, by rw [add_mul, hk, hl, Int.cast_add]⟩
  have hi := ha.1.trans_le (pow_le_pow_right₀ (by norm_num : (1 : ℚ) ≤ 10) (le_max_left i j))
  have hj := hb.1.trans_le (pow_le_pow_right₀ (by norm_num : (1 : ℚ) ≤ 10) (le_max_right i j))
  have hsum := abs_add_le a b
  rw [pow_succ]
  linarith [abs_nonneg a, abs_nonneg b]

theorem mul : HasDigits (a * b) (i + j) (s + t) := by
  obtain ⟨k, hk⟩ := ha.2
  obtain ⟨l, hl⟩ := hb.2
  refine ⟨?_, k * l, ?_⟩
  · rw [abs_mul, pow_add]
    exact mul_lt_mul'' ha.1 hb.1 (abs_nonneg a) (abs_nonneg b)
  · rw [Int.cast_mul, ← hk, ← hl, pow_add]
    ring

theorem rem {r : ℚ} (h : IsRemainder a b r) : HasDigits r (min i j) (max s t) := by
  obtain ⟨k, hk⟩ := ha.exists_int (le_max_left s t)
  obtain ⟨l, hl⟩ := hb.exists_int (le_max_right s t)
  refine ⟨?_, ?_⟩
  · rcases min_choice i j with hmin | hmin <;> rw [hmin]
    · exact h.abs_le.trans_lt ha.1
    · exact h.2.1.trans hb.1
  · obtain ⟨q, hq⟩ := h.1
    refine ⟨k - l * q, ?_⟩
    rw [Int.cast_sub, Int.cast_mul, ← hk, ← hl, hq]
    ring

end

end HasDigits

end Babelfish.Lib
