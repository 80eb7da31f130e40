import Babelfish.Tds.Numeric
import Mathlib.Tactic.FieldSimp

/-!
# What the sender writes for a numeric value

The digits that the sender collects are those of the integer part followed by `scale` fractional
digits, cut off or filled up with zeroes, and the magnitude is the number they stand for.

* `scanDigits_eq`: the digits that the loop collects.
* `numericLength_spec`: the length class is wide enough.
* `tdsSendTypeNumeric_eq`: the token, or the overflow error.
-/

namespace Babelfish.Tds

open Lib List

/-! ### What is printed, and what it stands for -/

def fractionText (fraction : List (Fin 10)) : List UInt8 :=
  if fraction.isEmpty then [] else pointByte :: (fraction.map Fin.val).map digitByte

def printUnsigned (whole : Nat) (fraction : List (Fin 10)) : List UInt8 :=
  (if whole = 0 then [digitByte 0] else (decimalDigits whole).map digitByte) ++
    fractionText fraction

/-- **What `numeric_out` prints**: the sign, the integer part without leading zeroes, and the
fractional digits. -/
def printNumeric (negative : Bool) (whole : Nat) (fraction : List (Fin 10)) : List UInt8 :=
  (if negative then [minusByte] else []) ++ printUnsigned whole fraction

def fractionDigits (scale : Nat) (fraction : List (Fin 10)) : List Nat :=
  (fraction.map Fin.val).take scale ++ List.replicate (scale - fraction.length) 0

def scaledDigits (scale whole : Nat) (fraction : List (Fin 10)) : List Nat :=
  decimalDigits whole ++ fractionDigits scale fraction

/-- **The magnitude**: the value truncated to `scale` fractional digits, without the point. -/
def scaledValue (scale whole : Nat) (fraction : List (Fin 10)) : Nat :=
  whole * 10 ^ scale + decimalValue (fractionDigits scale fraction)

def numericValue (negative : Bool) (magnitude scale : Nat) : ℚ :=
  if negative then -((magnitude : ℚ) / 10 ^ scale) else (magnitude : ℚ) / 10 ^ scale

/-- **The number that is printed.** -/
def printedValue (negative : Bool) (whole : Nat) (fraction : List (Fin 10)) : ℚ :=
  numericValue negative (whole * 10 ^ fraction.length + decimalValue (fraction.map Fin.val))
    fraction.length

section

variable {scale whole : Nat} {fraction : List (Fin 10)}

theorem length_fractionDigits : (fractionDigits scale fraction).length = scale := by
  simp only [fractionDigits, length_append, length_take, length_map, length_replicate]
  omega

theorem scaledDigits_lt {d : Nat} (h : d ∈ scaledDigits scale whole fraction) : d < 10 := by
  rcases mem_append.mp h with h | h
  · exact decimalDigits_lt h
  rcases mem_append.mp h with h | h
  · obtain ⟨e, -, rfl⟩ := mem_map.mp (mem_of_mem_take h)
    exact e.isLt
  · rw [eq_of_mem_replicate h]
    decide

section

variable (scale whole : Nat) (fraction : List (Fin 10))

theorem decimalValue_scaledDigits :
    decimalValue (scaledDigits scale whole fraction) = scaledValue scale whole fraction := by
  rw [scaledDigits, decimalValue_append, decimalValue_digits, length_fractionDigits, scaledValue]

theorem length_scaledDigits :
    (scaledDigits scale whole fraction).length = (decimalDigits whole).length + scale := by
  rw [scaledDigits, length_append, length_fractionDigits]

theorem scaledValue_lt :
    scaledValue scale whole fraction < 10 ^ ((decimalDigits whole).length + scale) := by
  rw [← decimalValue_scaledDigits, ← length_scaledDigits scale whole fraction]
  exact decimalValue_lt fun d hd => scaledDigits_lt hd

end

variable (negative : Bool) {ds : List Nat}

theorem numericValue_mul_pow (magnitude scale k : Nat) :
    numericValue negative (magnitude * 10 ^ k) (scale + k) =
      numericValue negative magnitude scale := by
  have hquotient : ((magnitude * 10 ^ k : Nat) : ℚ) / 10 ^ (scale + k) =
      magnitude / 10 ^ scale := by
    push_cast
    rw [pow_add]
    field_simp
  rw [numericValue, hquotient, numericValue]

/-- **The magnitude stands for the number with its fractional digits cut off at the scale.** -/
theorem numericValue_scaledValue :
    numericValue negative (scaledValue scale whole fraction) scale =
      printedValue negative whole (fraction.take scale) := by
  have hscale : scale = (fraction.take scale).length + (scale - fraction.length) := by
    rw [length_take]
    omega
  have hvalue : scaledValue scale whole fraction =
      (whole * 10 ^ (fraction.take scale).length +
        decimalValue ((fraction.take scale).map Fin.val)) * 10 ^ (scale - fraction.length) := by
    rw [scaledValue, fractionDigits, decimalValue_append, decimalValue_zeros, length_replicate,
      add_zero, map_take, add_mul, mul_assoc, ← pow_add, ← hscale]
  have hcut := numericValue_mul_pow negative (whole * 10 ^ (fraction.take scale).length +
    decimalValue ((fraction.take scale).map Fin.val)) (fraction.take scale).length
    (scale - fraction.length)
  rwa [← hvalue, ← hscale] at hcut

/-! ### The sender -/

theorem digitByte_ne_point {d : Nat} (h : d < 10) : digitByte d ≠ pointByte := digitByte_ne h rfl

theorem scanDigits_whole {m : Int} (hm : -1 < m) (rest acc : List UInt8) (h : ∀ d ∈ ds, d < 10) :
    scanDigits m (ds.map digitByte ++ rest) acc (-1) =
      scanDigits m rest (acc ++ ds.map digitByte) (-1) := by
  induction ds generalizing rest acc with
  | nil => rw [map_nil, nil_append, append_nil]
  | cons d ds ih =>
    have hd := digitByte_ne_point (h d mem_cons_self)
    rw [map_cons, cons_append, scanDigits, if_pos hm, if_neg hd, if_neg (by decide),
      ih rest _ (forall_mem_cons.mp h).2, append_assoc]
    rfl

theorem scanDigits_fraction (m : Nat) (ds : List Nat) (acc : List UInt8) (k : Nat)
    (h : ∀ d ∈ ds, d < 10) (hk : k ≤ m) :
    scanDigits m (ds.map digitByte) acc k =
      (acc ++ (ds.take (m - k)).map digitByte, ((k + min (m - k) ds.length : Nat) : Int)) := by
  induction ds generalizing acc k with
  | nil => simp [scanDigits]
  | cons d ds ih =>
    have hd := digitByte_ne_point (h d mem_cons_self)
    rw [map_cons, scanDigits]
    by_cases hlt : k < m
    · have hnext := ih (acc ++ [digitByte d]) (k + 1)
        (forall_mem_cons.mp h).2 hlt
      obtain ⟨j, hj⟩ : ∃ j, m - k = j + 1 := ⟨m - k - 1, by omega⟩
      rw [if_pos (by omega), if_neg hd, if_pos (by omega)]
      rw [show m - (k + 1) = j by omega] at hnext
      rw [hj, take_succ_cons, map_cons, length_cons]
      rw [show ((k : Int) + 1) = ((k + 1 : Nat) : Int) by omega, hnext]
      simp only [append_assoc, singleton_append, Prod.mk.injEq, true_and]
      omega
    · rw [if_neg (by omega), show m - k = 0 by omega]
      simp

/-- **The digits that the sender collects**, and how many of them are fractional. -/
theorem scanDigits_eq (scale : Nat) (whole : Nat) (fraction : List (Fin 10)) :
    ∃ k : Int, scanDigits scale ((decimalDigits whole).map digitByte ++ fractionText fraction)
        [] (-1) =
      ((decimalDigits whole ++ (fraction.map Fin.val).take scale).map digitByte, k) ∧
      (if k = -1 then 0 else k) = min scale fraction.length := by
  rw [scanDigits_whole (by omega) _ _ fun d hd => decimalDigits_lt hd, nil_append]
  cases fraction with
  | nil =>
    refine ⟨-1, ?_, by simp⟩
    simp [fractionText, scanDigits]
  | cons d ds =>
    rw [fractionText, if_neg (by simp), scanDigits, if_pos (by omega), if_pos rfl]
    have hdigits : ∀ e ∈ (d :: ds).map Fin.val, e < 10 := forall_mem_map.mpr fun f _ => f.isLt
    have hscan := scanDigits_fraction scale ((d :: ds).map Fin.val)
      ((decimalDigits whole).map digitByte) 0 hdigits (Nat.zero_le _)
    rw [zero_add, Nat.sub_zero, length_map] at hscan
    refine ⟨_, ?_, if_neg (by omega)⟩
    rwa [map_append]

section

variable (whole fraction)

/-- The sender takes one leading zero off, which leaves no zero in front of the point. -/
theorem drop_zero :
    (if (printUnsigned whole fraction).head? = some (digitByte 0) then
      (printUnsigned whole fraction).drop 1 else printUnsigned whole fraction) =
      (decimalDigits whole).map digitByte ++ fractionText fraction := by
  rw [printUnsigned]
  by_cases hzero : whole = 0
  · subst hzero
    simp [decimalDigits]
  · rw [if_neg hzero]
    cases hdigits : decimalDigits whole with
    | nil => exact absurd hdigits (decimalDigits_ne_nil hzero)
    | cons d ds =>
      have hd : d < 10 := decimalDigits_lt (hdigits ▸ mem_cons_self)
      have hne := head_decimalDigits hdigits
      refine if_neg ?_
      rw [map_cons, cons_append, head?_cons]
      intro h
      have := congrArg UInt8.toNat (Option.some.inj h)
      rw [digitByte_toNat hd, digitByte_toNat (by decide)] at this
      omega

theorem head_printUnsigned : (printUnsigned whole fraction).head? ≠ some minusByte := by
  have hne : ∀ d < 10, digitByte d ≠ minusByte := fun d hd => digitByte_ne hd rfl
  rw [printUnsigned]
  by_cases hzero : whole = 0
  · simp [hzero, hne 0 (by decide)]
  · rw [if_neg hzero]
    cases hdigits : decimalDigits whole with
    | nil => exact absurd hdigits (decimalDigits_ne_nil hzero)
    | cons d ds => simp [hne d (decimalDigits_lt (hdigits ▸ mem_cons_self))]

theorem head_printNumeric :
    (printNumeric negative whole fraction).head? = some minusByte ↔ negative = true := by
  cases negative with
  | true => simp [printNumeric]
  | false => simp [printNumeric, head_printUnsigned]

theorem drop_sign :
    (if negative = true then (printNumeric negative whole fraction).drop 1
      else printNumeric negative whole fraction) = printUnsigned whole fraction := by
  cases negative with
  | true | false => rfl

end

theorem stringToInteger_digits (h : ∀ d ∈ ds, d < 10) (hlen : ds.length ≤ 38) :
    stringToInteger (ds.map digitByte) = decimalValue ds := by
  induction ds using reverseRecOn with
  | nil => rfl
  | append_singleton ds d ih =>
    rw [length_append, length_singleton] at hlen
    have hds : ∀ e ∈ ds, e < 10 := fun e he => h e (mem_append_left _ he)
    have hd : d < 10 := h d (by simp)
    have hbound : decimalValue (ds ++ [d]) < 10 ^ 38 :=
      lt_of_lt_of_le (decimalValue_lt h)
        (Nat.pow_le_pow_right (by decide) (by rw [length_append]; exact hlen))
    have ih' := ih hds (by omega)
    unfold stringToInteger at ih' ⊢
    rw [map_append, foldl_append, ih', map_singleton, foldl_cons,
      foldl_nil, digitByte_toNat hd, Nat.add_sub_cancel_left, ← decimalValue_concat]
    exact Nat.mod_eq_of_lt (lt_trans hbound (by decide))

/-- **The length class holds every magnitude of that precision.** -/
theorem numericLength_spec {precision : Nat} (h : precision ≤ 38) :
    (numericLength precision = 4 ∨ numericLength precision = 8 ∨ numericLength precision = 12 ∨
      numericLength precision = 16) ∧ 10 ^ precision ≤ 256 ^ numericLength precision := by
  have hpow : ∀ {k : Nat}, precision ≤ k → 10 ^ precision ≤ 10 ^ k :=
    fun hk => Nat.pow_le_pow_right (by decide) hk
  unfold numericLength
  split
  · exact ⟨.inl rfl, le_trans (hpow (k := 9) (by omega)) (by decide)⟩
  split
  · exact ⟨.inr (.inl rfl), le_trans (hpow (k := 19) (by omega)) (by decide)⟩
  split
  · exact ⟨.inr (.inr (.inl rfl)), le_trans (hpow (k := 28) (by omega)) (by decide)⟩
  split
  · exact ⟨.inr (.inr (.inr rfl)), le_trans (hpow (k := 38) (by omega)) (by decide)⟩
  · omega

/-- The bytes of a value, behind the length. -/
def numericData (length magnitude : Nat) : List UInt8 :=
  (if negative then 0 else 1) :: leBytes length magnitude

/-- **What the sender writes**: the magnitude truncated to the scale, or the overflow error when
there are more digits than the precision. -/
theorem tdsSendTypeNumeric_eq (precision scale : Nat) (negative : Bool) (whole : Nat)
    (fraction : List (Fin 10)) (hp : precision ≤ 38) :
    tdsSendTypeNumeric precision scale (printNumeric negative whole fraction) =
      if precision < (decimalDigits whole).length + scale then .error .overflow
      else
        let length := numericLength ((decimalDigits whole).length + scale)
        .ok (UInt8.ofNat (length + 1) ::
          numericData negative length (scaledValue scale whole fraction)) := by
  obtain ⟨k, hscan, hk⟩ := scanDigits_eq scale whole fraction
  have hlength : ((decimalDigits whole ++ (fraction.map Fin.val).take scale).map digitByte).length =
      (decimalDigits whole).length + min scale fraction.length := by
    simp
  have hzeros : ((scale : Int) - ((min scale fraction.length : Nat) : Int)).toNat =
      scale - fraction.length := by
    omega
  have hstring : (decimalDigits whole ++ (fraction.map Fin.val).take scale).map digitByte ++
      replicate (scale - fraction.length) (digitByte 0) =
      (scaledDigits scale whole fraction).map digitByte := by
    simp [scaledDigits, fractionDigits]
  have htarget : (((decimalDigits whole).length + min scale fraction.length : Nat) : Int) +
      ((scale : Int) - ((min scale fraction.length : Nat) : Int)) =
      (((decimalDigits whole).length + scale : Nat) : Int) := by
    omega
  unfold tdsSendTypeNumeric
  simp only [drop_sign, drop_zero, hscan, hk, hlength, head_printNumeric, htarget, hzeros, hstring,
    length_map, length_scaledDigits, tdsMaxNumPrecision]
  by_cases hover : precision < (decimalDigits whole).length + scale
  · rw [if_pos (Or.inr (by omega)), if_pos hover]
  · rw [if_neg (by omega), if_neg hover, stringToInteger_digits (fun d hd => scaledDigits_lt hd)
      (by rw [length_scaledDigits]; omega), decimalValue_scaledDigits]
    rfl

end

end Babelfish.Tds
