import Babelfish.Lib.Except
import Babelfish.Money.ScanText

/-!
# The amount that is read

* `integralLoop_marks`: the digits before the point are accumulated exactly, or refused.
* `fraction_marks`: the digits behind it are rounded to four.
* `combine_eq`: the product with 10000 is wrapped, and only the signs are compared.
* `scanfixeddecimal_exact_iff`: for which texts the amount is the rounded one.
-/

namespace Babelfish.Money

open Lib List

variable {f : Nat} {t : MoneyText} {rest : List UInt8} {ds : List Nat} {negative : Bool}
  {ms : List Mark}

def signFactor (negative : Bool) : Int := if negative then -1 else 1

theorem decimalValue_cons (d : Nat) :
    decimalValue (d :: ds) = d * 10 ^ ds.length + decimalValue ds := by
  rw [show d :: ds = [d] ++ ds from rfl, decimalValue_append]
  simp [decimalValue]

/-- The text goes on with something that is neither a digit nor a comma nor a point. -/
def EndsDigits (rest : List UInt8) : Prop :=
  rest = [] ∨ ∃ c tail, rest = c :: tail ∧ c ≠ 44 ∧ isDigit c = false

/-! ### The digits before the point -/

/-- **One digit is refused exactly when the number does not fit.** -/
theorem wrap_tdiv_ten_iff {i x : Int}
    (h : 0 ≤ i ∧ 10 * i ≤ x ∧ x ≤ 10 * i + 9 ∨ i ≤ 0 ∧ 10 * i - 9 ≤ x ∧ x ≤ 10 * i) :
    (wrap 64 x).tdiv 10 = i ↔ Fits 64 x := by
  obtain ⟨hdiv, hpos, hneg⟩ := tdiv_tmod_spec (wrap 64 x) (m := 10) (by decide)
  obtain ⟨k, hk⟩ := exists_wrap 64 x
  rw [← wrap_eq_self_iff (w := 64) (by decide)]
  -- both lie in the same interval of ten numbers, and differ by a multiple of the modulus
  omega

theorem not_fits_append {i : Int} (hsign : 0 ≤ signFactor negative * i)
    (h : ¬ Fits 64 i) (k n : Nat) : ¬ Fits 64 (i * 10 ^ k + signFactor negative * n) := by
  have hpow : (1 : Int) ≤ 10 ^ k := one_le_pow₀ (by decide)
  rw [fits_64] at *
  cases negative with
  | false =>
    simp only [signFactor, Bool.false_eq_true, if_false, one_mul] at *
    have hle : i ≤ i * 10 ^ k := le_mul_of_one_le_right hsign hpow
    omega
  | true =>
    simp only [signFactor, if_true] at *
    have hle : -i ≤ -i * 10 ^ k := le_mul_of_one_le_right (by omega) hpow
    rw [neg_mul] at hle
    omega

theorem marks_cons (d : Fin 10) :
    (some d :: ms).map markByte ++ rest = digitByte d :: (ms.map markByte ++ rest) := rfl

theorem markDigits_some (d : Fin 10) : markDigits (some d :: ms) = d.val :: markDigits ms := rfl

theorem digit_ne_comma (d : Fin 10) : digitByte d ≠ 44 := digitByte_ne d.2 (by decide)

theorem integralLoop_marks (str : List UInt8) (negative : Bool) (hrest : EndsDigits rest)
    (ms : List Mark) {i : Int} (p : Nat) (hi : Fits 64 i) (hsign : 0 ≤ signFactor negative * i) :
    integralLoop str negative i p (ms.map markByte ++ rest) =
      if Fits 64 (i * 10 ^ (markDigits ms).length +
          signFactor negative * decimalValue (markDigits ms)) then
        .ok (i * 10 ^ (markDigits ms).length +
          signFactor negative * decimalValue (markDigits ms), p + (markDigits ms).length, rest)
      else .error (.outOfRange str) := by
  induction ms generalizing i p with
  | nil =>
    have hstop : integralLoop str negative i p rest = .ok (i, p, rest) := by
      rcases hrest with rfl | ⟨c, tail, rfl, hcomma, hdigit⟩
      · rfl
      · rw [integralLoop, if_neg hcomma, if_neg (by simp [hdigit])]
    simp [markDigits, decimalValue, hi, hstop]
  | cons m ms ih =>
    cases m with
    | none => exact ih p hi hsign
    | some d =>
      have hd := d.2
      have htoNat := digitByte_toNat hd
      -- the number that the round computes
      obtain ⟨x, hx, hstep⟩ : ∃ x : Int, x = i * 10 + signFactor negative * d ∧
          (if negative = true then i * 10 - ((digitByte d).toNat - 48 : Int)
            else i * 10 + ((digitByte d).toNat - 48 : Int)) = x := by
        refine ⟨_, rfl, ?_⟩
        cases negative <;> simp [signFactor, htoNat]
        omega
      have hrange : 0 ≤ i ∧ 10 * i ≤ x ∧ x ≤ 10 * i + 9 ∨
          i ≤ 0 ∧ 10 * i - 9 ≤ x ∧ x ≤ 10 * i := by
        cases negative <;> simp [signFactor] at hsign hx <;> omega
      have htotal : i * 10 ^ (d.val :: markDigits ms).length +
          signFactor negative * decimalValue (d.val :: markDigits ms) =
            x * 10 ^ (markDigits ms).length +
              signFactor negative * decimalValue (markDigits ms) := by
        rw [hx, decimalValue_cons, length_cons]
        push_cast
        ring
      rw [marks_cons, integralLoop, if_neg (digit_ne_comma d), if_pos (isDigit_digitByte hd)]
      dsimp only
      rw [hstep, markDigits_some, htotal]
      by_cases hfits : Fits 64 x
      · rw [if_neg (not_not.mpr ((wrap_tdiv_ten_iff hrange).mpr hfits)),
          wrap_eq_self (by decide) hfits, ih (p + 1) hfits
            (by cases negative <;> simp [signFactor] at * <;> omega)]
        simp only [length_cons, add_assoc, add_comm 1]
      · rw [if_pos (fun h => hfits ((wrap_tdiv_ten_iff hrange).mp h)),
          if_neg (not_fits_append
            (by cases negative <;> simp [signFactor] at * <;> omega) hfits _ _)]

/-! ### The digits behind the point -/

/-- The digits behind the point, in units of `1 / 10 ^ j` and rounded half up. -/
def roundedUnits (j : Nat) (ds : List Nat) : Nat :=
  (2 * (decimalValue ds * 10 ^ j) + 10 ^ ds.length) / (2 * 10 ^ ds.length)

theorem roundedUnits_nil (j : Nat) : roundedUnits j [] = 0 := by
  simp [roundedUnits, decimalValue]

theorem roundedUnits_cons (j d : Nat) :
    roundedUnits (j + 1) (d :: ds) = d * 10 ^ j + roundedUnits j ds := by
  have hpow : (0 : Nat) < 10 ^ ds.length := by positivity
  rw [roundedUnits, roundedUnits, ← Nat.mul_add_div (by omega), decimalValue_cons, length_cons]
  refine Eq.trans ?_ (Nat.mul_div_mul_left _ _ (show 0 < 10 by decide))
  congr 1 <;> ring

theorem roundedUnits_zero_cons {d : Nat} (h : d < 10) (hds : ∀ e ∈ ds, e < 10) :
    roundedUnits 0 (d :: ds) = if 5 ≤ d then 1 else 0 := by
  have hlt := decimalValue_lt hds
  rw [roundedUnits, decimalValue_cons, length_cons, pow_succ]
  generalize 10 ^ ds.length = q at *
  have hmul : d * q ≤ 9 * q := Nat.mul_le_mul_right q (by omega)
  split_ifs with h5
  · have hmul' : 5 * q ≤ d * q := Nat.mul_le_mul_right q h5
    exact Nat.div_eq_of_lt_le (by omega) (by omega)
  · have hmul' : d * q ≤ 4 * q := Nat.mul_le_mul_right q (by omega)
    exact Nat.div_eq_of_lt (by omega)

theorem markDigits_lt : ∀ e ∈ markDigits ms, e < 10 := by
  intro e he
  obtain ⟨m, -, hm⟩ := mem_filterMap.mp he
  cases m with
  | none => cases hm
  | some d =>
    cases hm
    exact d.2

theorem skipDigits_marks (hrest : EndsDigits rest) (ms : List Mark) (v : Nat) :
    skipDigits v (ms.map markByte ++ rest) = (v + (markDigits ms).length, rest) := by
  induction ms generalizing v with
  | nil =>
    rcases hrest with rfl | ⟨c, tail, rfl, hcomma, hdigit⟩
    · rfl
    · simp [skipDigits, hcomma, hdigit, markDigits]
  | cons m ms ih =>
    cases m with
    | none => exact ih v
    | some d =>
      rw [marks_cons, skipDigits, if_neg (digit_ne_comma d), if_pos (isDigit_digitByte d.2), ih,
        markDigits_some, length_cons]
      simp only [add_assoc, add_comm 1]

/-- What is done behind the point, with `j` digits still to keep. -/
def fractionTail (multiplier fractionalpart vscale : Nat) (ptr : List UInt8) :
    Nat × Nat × List UInt8 :=
  let (fractionalpart, vscale, ptr) :=
    roundDigit (fractionLoop multiplier fractionalpart vscale ptr)
  let (vscale, ptr) := skipDigits vscale ptr
  (fractionalpart, vscale, ptr)

theorem fractionTail_round (hrest : EndsDigits rest) (d : Fin 10) (ms : List Mark) (f v : Nat) :
    fractionTail 1 f v ((some d :: ms).map markByte ++ rest) =
      (f + roundedUnits 0 (markDigits (some d :: ms)), v + (markDigits (some d :: ms)).length,
        rest) := by
  have hloop : fractionLoop 1 f v ((some d :: ms).map markByte ++ rest) =
      (f, v, (some d :: ms).map markByte ++ rest) := by
    rw [marks_cons, fractionLoop, if_neg (digit_ne_comma d)]
    simp
  rw [fractionTail, hloop, markDigits_some, roundedUnits_zero_cons d.2 markDigits_lt,
    marks_cons, roundDigit, isDigit_digitByte d.2, digitByte_toNat d.2]
  by_cases h5 : 5 ≤ d.val
  · have h53 : 53 ≤ 48 + d.val := by omega
    simp only [h53, h5, decide_true, Bool.and_self, if_true]
    rw [skipDigits_marks hrest]
    simp only [length_cons, add_assoc, add_comm 1]
  · have h53 : ¬ 53 ≤ 48 + d.val := by omega
    have hskip := skipDigits_marks hrest (some d :: ms) v
    rw [marks_cons, markDigits_some] at hskip
    simp only [h53, h5, decide_false, Bool.and_false, Bool.false_eq_true, if_false]
    rw [hskip]
    rfl

theorem fractionTail_marks (hrest : EndsDigits rest) (ms : List Mark) (j f v : Nat) :
    fractionTail (10 ^ j) f v (ms.map markByte ++ rest) =
      (f + roundedUnits j (markDigits ms), v + (markDigits ms).length, rest) := by
  induction ms generalizing j f v with
  | nil =>
    rw [show markDigits [] = [] from rfl, roundedUnits_nil]
    rcases hrest with rfl | ⟨c, tail, rfl, hcomma, hdigit⟩
    · rfl
    · simp [fractionTail, fractionLoop, roundDigit, skipDigits, hcomma, hdigit]
  | cons m ms ih =>
    cases m with
    | none => exact ih j f v
    | some d =>
      cases j with
      | zero => exact fractionTail_round hrest d ms f v
      | succ j =>
        have hpow : (1 : Nat) < 10 ^ (j + 1) := Nat.one_lt_pow (by omega) (by decide)
        have hdiv : 10 ^ (j + 1) / 10 = 10 ^ j := by
          rw [pow_succ, Nat.mul_div_cancel _ (by decide)]
        have hloop : fractionLoop (10 ^ (j + 1)) f v ((some d :: ms).map markByte ++ rest) =
            fractionLoop (10 ^ j) (f + d * 10 ^ j) (v + 1) (ms.map markByte ++ rest) := by
          rw [marks_cons, fractionLoop, if_neg (digit_ne_comma d),
            if_pos (by simp [isDigit_digitByte d.2, hpow]), digitByte_toNat d.2, hdiv,
            Nat.add_sub_cancel_left]
        rw [fractionTail, hloop]
        refine (ih j (f + d * 10 ^ j) (v + 1)).trans ?_
        rw [markDigits_some, roundedUnits_cons, length_cons]
        simp only [add_assoc, add_comm 1]

def fractionDigits (fraction : Option (List Mark)) : List Nat := markDigits (fraction.getD [])

/-- **The digits behind the point are rounded to four.** -/
theorem fraction_marks (hrest : EndsDigits rest) (hpoint : rest.headD 0 ≠ 46)
    (frac : Option (List Mark)) :
    fraction (pointBytes frac ++ rest) =
      (roundedUnits 4 (fractionDigits frac), (fractionDigits frac).length, rest) := by
  cases frac with
  | none =>
    have hnone : fractionDigits none = [] := rfl
    rw [hnone, roundedUnits_nil, pointBytes, nil_append]
    rcases rest with _ | ⟨c, tail⟩
    · rfl
    · have hc : c ≠ 46 := hpoint
      simp [fraction, hc]
  | some ms =>
    have h := fractionTail_marks hrest ms 4 0 0
    rwa [zero_add, zero_add] at h

/-! ### The two parts together -/

/-- The wrapped product has the sign that is expected and keeps it when the fraction is added, or it
is 0: the overflow is not seen. -/
def Undetected (negative : Bool) (value : Int) (fractionalpart : Nat) : Prop :=
  value = 0 ∨ if negative then value < 0 ∧ Fits 64 (value - fractionalpart)
    else fractionalpart ≤ value ∧ Fits 64 (value + fractionalpart)

instance (negative : Bool) (value : Int) (fractionalpart : Nat) :
    Decidable (Undetected negative value fractionalpart) :=
  inferInstanceAs (Decidable (_ ∨ _))

theorem Undetected.fits {v : Int} (h : Undetected negative v f) (hf : f ≤ 10000) :
    Fits 64 (v + signFactor negative * f) := by
  unfold Undetected at h
  simp only [fits_64] at *
  cases negative <;> simp [signFactor] at h ⊢ <;> omega

theorem samesign_iff {a b : Int} : samesign a b = true ↔ (a < 0 ↔ b < 0) := by
  simp [samesign]

section
variable {v : Int} {n : Nat} (hv : Fits 64 v) (hf : f ≤ 10000)
include hv hf

theorem negative_check_iff (hn : v ≠ 0 → 0 < n) :
    (decide (v ≠ 0) && (!samesign v (signFactor true * n) || !samesign (wrap 64 (v - f)) v ||
      !samesign (wrap 64 (v - f)) v)) = true ↔ ¬ Undetected true v f := by
  obtain ⟨k, hk⟩ := exists_wrap 64 (v - f)
  have hfits := fits_wrap (w := 64) (by decide) (v - f)
  simp only [Undetected, fits_64, signFactor, if_true, Bool.and_eq_true, Bool.or_eq_true,
    Bool.not_eq_true', ← Bool.not_eq_true, samesign_iff, decide_eq_true_eq] at *
  omega

theorem positive_check_iff :
    (decide (v ≠ 0) && (!samesign v (signFactor false * n) || !samesign (wrap 64 (v - f)) v ||
      !samesign (wrap 64 (v + f)) v)) = true ↔ ¬ Undetected false v f := by
  obtain ⟨k, hk⟩ := exists_wrap 64 (v - f)
  obtain ⟨l, hl⟩ := exists_wrap 64 (v + f)
  have hfits := fits_wrap (w := 64) (by decide) (v - f)
  have hfits' := fits_wrap (w := 64) (by decide) (v + f)
  simp only [Undetected, fits_64, signFactor, Bool.false_eq_true, if_false, Bool.and_eq_true,
    Bool.or_eq_true, Bool.not_eq_true', ← Bool.not_eq_true, samesign_iff, decide_eq_true_eq] at *
  omega

end

/-- **The sum is given when the wrapped product passes for one that fits.** -/
theorem combine_eq (str : List UInt8) (negative : Bool) (n : Nat) (hf : f ≤ 10000) :
    combine str negative (signFactor negative * n) f =
      if Undetected negative (wrap 64 (signFactor negative * n * 10000)) f then
        .ok (wrap 64 (signFactor negative * n * 10000) + signFactor negative * f)
      else .error (.outOfRange str) := by
  have hfits := fits_wrap (w := 64) (by decide) (signFactor negative * n * 10000)
  have hpos : wrap 64 (signFactor negative * n * 10000) ≠ 0 → 0 < n := by
    intro h
    by_contra hn
    obtain rfl : n = 0 := by omega
    exact h (by simp [wrap])
  unfold combine
  dsimp only
  generalize wrap 64 (signFactor negative * n * 10000) = w at *
  have hsum := fun h : Undetected negative w f => wrap_eq_self (w := 64) (by decide) (h.fits hf)
  cases negative with
  | true =>
    rw [if_pos rfl, if_congr (negative_check_iff hfits hf hpos) rfl rfl, ite_not]
    refine ite_congr rfl (fun hund => ?_) fun _ => rfl
    rw [← hsum hund, signFactor, if_pos rfl, Int.neg_one_mul, ← Int.sub_eq_add_neg]
  | false =>
    rw [if_neg (by simp), if_congr (positive_check_iff hfits hf) rfl rfl, ite_not]
    refine ite_congr rfl (fun hund => ?_) fun _ => rfl
    rw [← hsum hund, signFactor, if_neg (by simp), Int.one_mul]

/-! ### The amount -/

namespace MoneyText

variable (t : MoneyText)

def whole : Nat := decimalValue (markDigits t.integral)

/-- The part behind the point, in ten-thousandths and rounded. -/
def units : Nat := roundedUnits 4 (fractionDigits t.fraction)

/-- **The amount that the text denotes**: ten thousand times its value, rounded half away from
zero. -/
def amount : Int :=
  roundHalfAway
    (signFactor t.opening.negative *
      (decimalValue (markDigits t.integral ++ fractionDigits t.fraction) * 10000 : Nat))
    (10 ^ (fractionDigits t.fraction).length)

/-- The product with 10000 overflows, and is taken for one that does not. -/
def WrapsUnseen : Prop :=
  Fits 64 (signFactor t.opening.negative * t.whole) ∧
  ¬ Fits 64 (signFactor t.opening.negative * t.whole * 10000) ∧
  Undetected t.opening.negative (wrap 64 (signFactor t.opening.negative * t.whole * 10000)) t.units

/-- The scan gives the amount, or the error when that does not fit. -/
def Exact : Prop :=
  (scanfixeddecimal t.bytes).map Prod.fst =
    if Fits 64 t.amount then .ok t.amount else .error (.outOfRange t.bytes)

end MoneyText

theorem roundHalfAway_signFactor (x : Nat) {m : Nat} (hm : 0 < m) :
    roundHalfAway (signFactor negative * x) m =
      signFactor negative * ((2 * x + m) / (2 * m) : Nat) := by
  rcases Nat.eq_zero_or_pos x with rfl | hx
  · have hzero : (2 * 0 + m) / (2 * m) = 0 := Nat.div_eq_of_lt (by omega)
    rw [hzero]
    simp [roundHalfAway]
  · cases negative with
    | false | true =>
      simp [roundHalfAway, signFactor, Int.sign_natCast_of_ne_zero (by omega : x ≠ 0)]

theorem amount_eq :
    t.amount = signFactor t.opening.negative * (t.whole * 10000 + t.units : Nat) := by
  have hpow : (0 : Nat) < 10 ^ (fractionDigits t.fraction).length := by positivity
  rw [MoneyText.amount, roundHalfAway_signFactor _ hpow, decimalValue_append, MoneyText.units,
    roundedUnits, ← Nat.mul_add_div (by omega), MoneyText.whole]
  congr 3
  ring

theorem roundedUnits_le {j : Nat} (h : ∀ d ∈ ds, d < 10) : roundedUnits j ds ≤ 10 ^ j := by
  have hlt := decimalValue_lt h
  rw [roundedUnits, Nat.div_le_iff_le_mul_add_pred (by omega)]
  have hmul : decimalValue ds * 10 ^ j ≤ 10 ^ ds.length * 10 ^ j :=
    Nat.mul_le_mul_right _ (le_of_lt hlt)
  have hswap : 2 * 10 ^ ds.length * 10 ^ j = 2 * (10 ^ ds.length * 10 ^ j) := mul_assoc _ _ _
  omega

theorem Space.bytes_cases (sp : Space) : ∃ c tail, sp.bytes = c :: tail ∧ c ≠ 44 ∧ c ≠ 46 ∧
    isDigit c = false := by
  cases sp with
  | nbsp => exact ⟨0xA0, [], rfl, by decide⟩
  | nbspUtf8 => exact ⟨0xC2, [0xA0], rfl, by decide⟩
  | blank c h =>
    have hrange := isSpace_iff.mp h
    refine ⟨c, [], rfl, ne_of_toNat_ne (show c.toNat ≠ 44 by omega),
      ne_of_toNat_ne (show c.toNat ≠ 46 by omega), ?_⟩
    rw [isDigit, decide_eq_false_iff_not]
    omega

theorem endsDigits_spaces (sps : List Space) :
    EndsDigits (spaceBytes sps) ∧ (spaceBytes sps).headD 0 ≠ 46 := by
  cases sps with
  | nil => exact ⟨.inl rfl, by decide⟩
  | cons sp sps =>
    obtain ⟨c, tail, hbytes, hcomma, hpoint, hdigit⟩ := sp.bytes_cases
    have hcons : spaceBytes (sp :: sps) = c :: (tail ++ spaceBytes sps) := by
      rw [spaceBytes, flatMap_cons, hbytes, cons_append]
      rfl
    rw [hcons]
    exact ⟨.inr ⟨c, _, rfl, hcomma, hdigit⟩, hpoint⟩

theorem endsDigits_point (frac : Option (List Mark)) (sps : List Space) :
    EndsDigits (pointBytes frac ++ spaceBytes sps) := by
  cases frac with
  | none => exact (endsDigits_spaces sps).1
  | some ms => exact .inr ⟨46, _, rfl, by decide, by decide⟩

/-- **What the scan makes of the text**: the digits before the point are refused when they do not
fit, and otherwise combined with those behind it. -/
theorem scanfixeddecimal_text :
    (scanfixeddecimal t.bytes).map Prod.fst =
      if Fits 64 (signFactor t.opening.negative * t.whole) then
        combine t.bytes t.opening.negative (signFactor t.opening.negative * t.whole) t.units
      else .error (.outOfRange t.bytes) := by
  obtain ⟨ptr, hptr, hscan⟩ := scanfixeddecimal_opening t
  obtain ⟨trail, hsettled, -⟩ := exists_settled t
  have hloop := integralLoop_marks t.bytes t.opening.negative
    (endsDigits_point t.fraction trail) t.integral (i := 0) 0 (by decide) (by simp)
  obtain ⟨hends, hpoint⟩ := endsDigits_spaces trail
  have hskip : skipMoneySpaces (spaceBytes trail) = [] := by
    rw [← append_nil (spaceBytes trail), skipMoneySpaces_spaces]
    rfl
  have hwhole : decimalValue (markDigits t.integral) = t.whole := rfl
  rw [Int.zero_mul, Int.zero_add, zero_add, hwhole] at hloop
  rw [hscan, scanDigits, hptr, hsettled, MoneyText.body, append_assoc, hloop]
  split_ifs
  · rw [ok_bind]
    dsimp only
    rw [fraction_marks hends hpoint, hskip, if_neg (by simp)]
    show Except.map Prod.fst (combine t.bytes t.opening.negative
      (signFactor t.opening.negative * t.whole) t.units >>= _) = _
    cases combine t.bytes t.opening.negative (signFactor t.opening.negative * t.whole) t.units
      <;> rfl
  · rfl

theorem units_le (t : MoneyText) : t.units ≤ 10000 :=
  roundedUnits_le markDigits_lt

theorem fits_product_of_fits_amount (h : Fits 64 t.amount) :
    Fits 64 (signFactor t.opening.negative * t.whole * 10000) := by
  rw [amount_eq, fits_64] at h
  rw [fits_64]
  cases hneg : t.opening.negative <;> simp [hneg, signFactor] at h ⊢ <;> omega

section

variable (h : Fits 64 (signFactor t.opening.negative * t.whole * 10000))
include h

theorem fits_whole_of_fits_product : Fits 64 (signFactor t.opening.negative * t.whole) := by
  rw [fits_64] at *
  omega

theorem undetected_iff_fits_amount :
    Undetected t.opening.negative (signFactor t.opening.negative * t.whole * 10000) t.units ↔
      Fits 64 t.amount := by
  have hle := units_le t
  rw [amount_eq]
  unfold Undetected
  cases hneg : t.opening.negative <;>
    simp only [hneg, signFactor, Bool.false_eq_true, if_false, if_true, Int.neg_mul, Int.one_mul,
      fits_64] at h ⊢ <;> omega

/-- **A product that fits gives the amount.** -/
theorem exact_of_fits_product : t.Exact := by
  have hsum : signFactor t.opening.negative * t.whole * 10000 +
      signFactor t.opening.negative * t.units = t.amount := by
    rw [amount_eq]
    push_cast
    ring
  rw [MoneyText.Exact, scanfixeddecimal_text, if_pos (fits_whole_of_fits_product h),
    combine_eq t.bytes t.opening.negative t.whole (units_le t), wrap_eq_self (by decide) h,
    if_congr (undetected_iff_fits_amount h) rfl rfl, hsum]

end

/-- **For which texts the amount is the rounded one**: for all but those whose number before the
point fits in 64 bits, while its product with 10000 does not and wraps around to a number that
passes for one that does. -/
theorem scanfixeddecimal_exact_iff (t : MoneyText) : t.Exact ↔ ¬ t.WrapsUnseen := by
  by_cases hproduct : Fits 64 (signFactor t.opening.negative * t.whole * 10000)
  · exact ⟨fun _ h => h.2.1 hproduct, fun _ => exact_of_fits_product hproduct⟩
  have hamount : ¬ Fits 64 t.amount := fun h => hproduct (fits_product_of_fits_amount h)
  rw [MoneyText.Exact, if_neg hamount, scanfixeddecimal_text,
    combine_eq t.bytes t.opening.negative t.whole (units_le t), MoneyText.WrapsUnseen]
  by_cases hwhole : Fits 64 (signFactor t.opening.negative * t.whole)
  · rw [if_pos hwhole]
    split <;> simp [*]
  · simp [hwhole]

def wrappedText : MoneyText where
  lead := []
  opening := .signFirst none none
  integral := [1, 8, 4, 4, 6, 7, 4, 4, 0, 7, 3, 7, 0, 9, 5, 6].map some
  fraction := none
  trail := []

/-- 1844674407370956 is out of range, and is read as 0.8384. -/
theorem wrapped_amount :
    scanfixeddecimal wrappedText.bytes = .ok (8384, 16, 0) ∧
      wrappedText.amount = 18446744073709560000 ∧ ¬ Fits 64 wrappedText.amount := by
  decide +kernel

end Babelfish.Money
