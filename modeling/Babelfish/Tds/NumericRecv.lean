import Babelfish.Tds.NumericSend

/-!
# A numeric value that was sent is read back

The receiver prints the magnitude into a buffer, moves the point in front of the last `scale` digits
and parses the string.  The buffer has 40 bytes: a sign, 38 digits and the point leave no room for
the terminator, and then the parser runs into what lies behind the buffer.

* `integer2String_eq`, `insertPoint_eq`: what the two loops of the receiver leave in the buffer.
* `setVarFromStr_number`: what the parser makes of digits around a point.
* `tdsRecvTypeNumeric_eq`: the string that is parsed.
* `numeric_exact_iff`: when the value is read back whatever lies behind the buffer.
* `ownBytes_iff`: when bulk load and table values read the value of the token's own bytes.
* `staysInBuffer_iff`: when the buffer takes the text of a magnitude.
-/

namespace Babelfish.Tds

open Lib List

variable {fraction whole : List Nat}

/-! ### C strings -/

theorem cString_append {xs : List UInt8} (h : ∀ c ∈ xs, c ≠ 0) (ys : List UInt8) :
    cString (xs ++ ys) = xs ++ cString ys := by
  rw [cString, takeWhile_append_of_pos fun c hc => by simpa using h c hc, cString]

theorem cString_of_ne_zero {xs : List UInt8} (h : ∀ c ∈ xs, c ≠ 0) : cString xs = xs := by
  have hall := cString_append h []
  rwa [append_nil, show cString [] = [] from rfl, append_nil] at hall

@[simp]
theorem cString_zero (ys : List UInt8) : cString (0 :: ys) = [] := rfl

theorem digitByte_ne_zero {d : Nat} (h : d < 10) : digitByte d ≠ 0 := digitByte_ne h rfl

theorem map_digitByte_ne_zero {ds : List Nat} (h : ∀ d ∈ ds, d < 10) :
    ∀ c ∈ ds.map digitByte, c ≠ 0 :=
  forall_mem_map.mpr fun d hd => digitByte_ne_zero (h d hd)

/-! ### The loops of the receiver -/

theorem putDigits_eq (fuel num : Nat) (done free : List UInt8) (hnum : num < 10 ^ fuel)
    (hlen : (Nat.digits 10 num).length ≤ free.length) :
    putDigits fuel num done.length (done ++ free) =
      (done ++ (Nat.digits 10 num).map digitByte ++ free.drop (Nat.digits 10 num).length,
      done.length + (Nat.digits 10 num).length) := by
  induction fuel generalizing num done free with
  | zero =>
    obtain rfl : num = 0 := by omega
    simp [putDigits]
  | succ fuel ih =>
    rw [putDigits]
    by_cases hzero : num = 0
    · subst hzero
      simp
    · rw [Nat.digits_def' (by decide) (by omega)] at hlen ⊢
      cases free with
      | nil => simp at hlen
      | cons x free =>
        have hnext := ih (num / 10) (done ++ [digitByte (num % 10)]) free (by omega)
          (by simpa using hlen)
        rw [if_neg hzero, set_append_right _ _ le_rfl, Nat.sub_self, set_cons_zero]
        rw [length_append, length_singleton] at hnext
        simp only [append_assoc, singleton_append] at hnext
        rw [hnext]
        simp only [append_assoc, map_cons, cons_append, length_cons,
          drop_succ_cons, Prod.mk.injEq, true_and]
        omega

theorem length_digits_le {num : Nat} (hlt : num < 10 ^ 38) : (decimalDigits num).length ≤ 38 :=
  length_decimalDigits_le_iff.mpr hlt

/-- **The magnitude in the buffer**: the sign, the digits, and the zeroes that are left. -/
theorem integer2String_eq {num : Nat} (hnum : num < 10 ^ 38) (behind : List UInt8) :
    integer2String num (List.replicate 40 0 ++ behind) =
      minusByte :: (decimalDigits num).map digitByte ++
        (List.replicate (39 - (decimalDigits num).length) 0 ++ behind) := by
  have hlen := length_digits_le hnum
  have hdigits : Nat.digits 10 num = (decimalDigits num).reverse := by simp [decimalDigits]
  have hput := putDigits_eq 39 num [] (replicate 40 0 ++ behind) (by omega)
    (by rw [hdigits, length_reverse, length_append, length_replicate]; omega)
  rw [hdigits, length_reverse] at hput
  obtain ⟨k, hk⟩ : ∃ k, 40 - (decimalDigits num).length = k + 2 :=
    ⟨38 - (decimalDigits num).length, by omega⟩
  have hdrop : (replicate 40 (0 : UInt8) ++ behind).drop (decimalDigits num).length =
      0 :: 0 :: (replicate k 0 ++ behind) := by
    rw [drop_append_of_le_length (by simp; omega), drop_replicate, hk]
    rfl
  have hlow : ∀ c ∈ (decimalDigits num).reverse.map digitByte ++ [minusByte], c ≠ 0 :=
    forall_mem_append.mpr
      ⟨map_digitByte_ne_zero fun d hd => decimalDigits_lt (mem_reverse.mp hd), by simp [minusByte]⟩
  rw [hdrop] at hput
  simp only [length_nil, nil_append, zero_add] at hput
  rw [integer2String, hput]
  dsimp only
  rw [set_append_right _ _ (by simp), show 39 - (decimalDigits num).length = k + 1 by omega]
  simp only [length_map, length_reverse, Nat.sub_self, set_cons_zero]
  rw [show (decimalDigits num).reverse.map digitByte ++
      minusByte :: 0 :: (replicate k 0 ++ behind) =
    ((decimalDigits num).reverse.map digitByte ++ [minusByte]) ++
      0 :: (replicate k 0 ++ behind) by simp, reverseString, cString_append hlow, cString_zero,
    append_nil, drop_left]
  simp [replicate_succ]

theorem insertPoint_shift (tail head : List UInt8) (t x : UInt8) (after : List UInt8) :
    (shiftPoint (head.length + tail.length) tail.length t (head ++ tail ++ x :: after)).1.set
      (head.length + tail.length)
      (shiftPoint (head.length + tail.length) tail.length t (head ++ tail ++ x :: after)).2 =
      head ++ t :: tail ++ after := by
  induction tail generalizing head t x after with
  | nil =>
    rw [length_nil, shiftPoint]
    simp
  | cons c tail ih =>
    have hnext := ih (head ++ [t]) c x after
    have hat : head.length + (tail.length + 1) - (tail.length + 1) = head.length := by omega
    have hlen : (head ++ [t]).length + tail.length = head.length + (tail.length + 1) := by
      simp only [length_append, length_singleton]
      omega
    rw [hlen] at hnext
    rw [length_cons, shiftPoint, hat]
    simpa using hnext

theorem insertPoint_eq (head tail after : List UInt8) (x : UInt8) :
    magnitudeText.insertPoint tail.length (head.length + tail.length)
      (head ++ tail ++ x :: after) = head ++ pointByte :: tail ++ after :=
  insertPoint_shift tail head pointByte x after

theorem appendZeros_eq (scale : Nat) (done free : List UInt8) (hlen : scale ≤ free.length) :
    appendZeros scale done.length (done ++ free) =
      done ++ List.replicate scale (digitByte 0) ++ free.drop scale := by
  induction scale generalizing done free with
  | zero =>
    simp [appendZeros]
  | succ scale ih =>
    cases free with
    | nil => simp at hlen
    | cons x free =>
      have hnext := ih (done ++ [digitByte 0]) free (by simpa using hlen)
      rw [length_append, length_singleton] at hnext
      rw [appendZeros, set_append_right _ _ le_rfl, Nat.sub_self, set_cons_zero]
      simp only [append_assoc, singleton_append] at hnext
      rw [hnext]
      simp [replicate_succ]

/-! ### The digits around the point -/

variable (scale num : Nat) {behind : List UInt8}

def paddedDigits : List Nat :=
  List.replicate (scale - (decimalDigits num).length) 0 ++ decimalDigits num

def wholeDigits : List Nat :=
  if num = 0 then [0] else (paddedDigits scale num).take ((decimalDigits num).length - scale)

def scaleDigits : List Nat :=
  if num = 0 then List.replicate scale 0
  else (paddedDigits scale num).drop ((decimalDigits num).length - scale)

section

variable {scale num : Nat}

theorem paddedDigits_eq (hnum : num ≠ 0) :
    paddedDigits scale num = wholeDigits scale num ++ scaleDigits scale num := by
  rw [wholeDigits, if_neg hnum, scaleDigits, if_neg hnum, take_append_drop]

theorem length_scaleDigits : (scaleDigits scale num).length = scale := by
  rw [scaleDigits]
  split_ifs
  · rw [length_replicate]
  · simp only [paddedDigits, length_drop, length_append, length_replicate]
    omega

theorem length_wholeDigits (hnum : num ≠ 0) :
    (wholeDigits scale num).length = (decimalDigits num).length - scale := by
  rw [wholeDigits, if_neg hnum]
  simp only [paddedDigits, length_take, length_append, length_replicate]
  omega

theorem decimalValue_parts :
    decimalValue (wholeDigits scale num ++ scaleDigits scale num) = num := by
  by_cases hnum : num = 0
  · subst hnum
    exact decimalValue_zeros (scale + 1)
  · rw [← paddedDigits_eq hnum, paddedDigits, decimalValue_append, decimalValue_zeros,
      zero_mul, zero_add, decimalValue_digits]

theorem parts_ne_nil (scale num : Nat) : wholeDigits scale num ++ scaleDigits scale num ≠ [] := by
  by_cases hnum : num = 0
  · rw [wholeDigits, if_pos hnum]
    simp
  · rw [← paddedDigits_eq hnum]
    exact append_ne_nil_of_right_ne_nil _ (decimalDigits_ne_nil hnum)

theorem parts_lt {d : Nat} (h : d ∈ wholeDigits scale num ++ scaleDigits scale num) : d < 10 := by
  by_cases hnum : num = 0
  · rw [wholeDigits, if_pos hnum, scaleDigits, if_pos hnum] at h
    rcases mem_append.mp h with h | h
    · rw [mem_singleton.mp h]
      decide
    · rw [eq_of_mem_replicate h]
      decide
  · rw [← paddedDigits_eq hnum] at h
    rcases mem_append.mp h with h | h
    · rw [eq_of_mem_replicate h]
      decide
    · exact decimalDigits_lt h

end

/-! ### The string that is parsed -/

/-- **The string ends inside the buffer.** -/
def Terminated (scale num : Nat) : Prop := if num = 0 then scale < 38 else num < 10 ^ 37

instance (scale num : Nat) : Decidable (Terminated scale num) :=
  inferInstanceAs (Decidable (if num = 0 then _ else _))

/-- The string ends inside the buffer, or moves to one of its own. -/
def Ended (scale num : Nat) : Prop :=
  if num = 0 then scale < 38 else num < 10 ^ 37 ∨ num < 10 ^ 38 ∧ 38 < scale

instance (scale num : Nat) : Decidable (Ended scale num) :=
  inferInstanceAs (Decidable (if num = 0 then _ else _))

theorem ended_iff_terminated {scale num : Nat} (hscale : scale ≤ 38) :
    Ended scale num ↔ Terminated scale num := by
  unfold Ended Terminated
  split_ifs
  · exact Iff.rfl
  · omega

/-- What the parser sees behind the digits; zeroes can go on behind the buffer. -/
def stringEnd (behind : List UInt8) : List UInt8 :=
  if Ended scale num then [] else cString (behind.drop (scale - 38))

def pointText : List UInt8 :=
  (wholeDigits scale num).map digitByte ++ pointByte :: (scaleDigits scale num).map digitByte

theorem pointText_ne_zero : ∀ c ∈ pointText scale num, c ≠ 0 := by
  refine forall_mem_append.mpr ⟨?_, forall_mem_cons.mpr ⟨by decide, ?_⟩⟩
  · exact map_digitByte_ne_zero fun d hd => parts_lt (mem_append_left _ hd)
  · exact map_digitByte_ne_zero fun d hd => parts_lt (mem_append_right _ hd)

theorem cString_zeros (n : Nat) :
    cString (List.replicate n 0 ++ behind) = if n = 0 then cString behind else [] := by
  cases n with
  | zero | succ n => rfl

theorem magnitudeText_zeros {scale : Nat} (h : scale ≤ 38 + behind.length) :
    magnitudeText 0 scale behind = pointText scale 0 ++ (replicate 38 0 ++ behind).drop scale := by
  have happend := appendZeros_eq scale [digitByte 0, pointByte] (replicate 38 0 ++ behind)
    (by rwa [length_append, length_replicate])
  have htext : [digitByte 0, pointByte] ++ replicate scale (digitByte 0) =
      pointText scale 0 := by
    simp [pointText, wholeDigits, scaleDigits]
  exact htext ▸ happend

/-- **Zero in the buffer.** -/
theorem magnitudeText_zero {scale : Nat} (hscale : scale ≤ 38 + behind.length) :
    cString (magnitudeText 0 scale behind) =
      pointText scale 0 ++ stringEnd scale 0 behind := by
  have hended : Ended scale 0 ↔ 38 - scale ≠ 0 := by
    rw [Ended, if_pos rfl]
    omega
  rw [magnitudeText_zeros hscale, cString_append (pointText_ne_zero scale 0), drop_append,
    drop_replicate, length_replicate, cString_zeros, stringEnd]
  simp only [hended, ne_eq, ite_not]

section

variable {scale num : Nat} (hnum : num ≠ 0)
include hnum

theorem insertPoint_padded (hscale : (decimalDigits num).length < scale) :
    let decString := minusByte :: ((paddedDigits scale num).map digitByte ++ [pointByte, 0])
    magnitudeText.insertPoint scale ((cString decString).length - 1) decString =
      minusByte :: (pointText scale num ++ [0]) := by
  have hwhole : wholeDigits scale num = [] :=
    eq_nil_of_length_eq_zero (by rw [length_wholeDigits hnum]; omega)
  have hne : ∀ c ∈ minusByte :: ((scaleDigits scale num).map digitByte ++ [pointByte]), c ≠ 0 :=
    forall_mem_cons.mpr ⟨by decide, forall_mem_append.mpr
      ⟨map_digitByte_ne_zero fun d hd => parts_lt (mem_append_right _ hd), by simp [pointByte]⟩⟩
  have hstring := cString_append hne [0]
  simp only [cons_append, append_assoc, nil_append, cString_zero] at hstring
  have hinsert := insertPoint_eq [minusByte] ((scaleDigits scale num).map digitByte) [0] pointByte
  rw [length_map, length_scaleDigits, length_singleton, add_comm 1 scale] at hinsert
  rw [paddedDigits_eq hnum, pointText, hwhole, nil_append]
  dsimp only
  rw [hstring, length_cons, length_append, length_map, length_scaleDigits]
  simpa using hinsert

theorem insertPoint_digits (hscale : scale ≤ (decimalDigits num).length) (after : List UInt8) :
    magnitudeText.insertPoint scale ((decimalDigits num).length + 1)
      (minusByte :: (decimalDigits num).map digitByte ++ 0 :: after) =
      minusByte :: (pointText scale num ++ after) := by
  have hdigits : decimalDigits num = wholeDigits scale num ++ scaleDigits scale num := by
    rw [← paddedDigits_eq hnum, paddedDigits, Nat.sub_eq_zero_of_le hscale]
    rfl
  have hinsert := insertPoint_eq (minusByte :: (wholeDigits scale num).map digitByte)
    ((scaleDigits scale num).map digitByte) after 0
  have hlen : (minusByte :: (wholeDigits scale num).map digitByte).length + scale =
      (decimalDigits num).length + 1 := by
    rw [length_cons, length_map, length_wholeDigits hnum]
    omega
  rw [length_map, length_scaleDigits, hlen] at hinsert
  rw [pointText]
  refine Eq.trans (congrArg _ ?_) (hinsert.trans ?_)
  · conv_lhs => rw [hdigits]
    simp
  · simp

omit hnum in
theorem signed_ne_zero : ∀ c ∈ minusByte :: (decimalDigits num).map digitByte, c ≠ 0 :=
  forall_mem_cons.mpr ⟨by decide, map_digitByte_ne_zero fun d hd => decimalDigits_lt hd⟩

variable (hlt : num < 10 ^ 38)
include hlt

omit hnum in
theorem cString_integer2String :
    cString (integer2String num (replicate 40 0 ++ behind)) =
      minusByte :: (decimalDigits num).map digitByte := by
  have hlen := length_digits_le hlt
  rw [integer2String_eq hlt behind, cString_append signed_ne_zero, cString_zeros,
    if_neg (by omega), append_nil]

theorem magnitudeText_digits (hscale : scale ≤ (decimalDigits num).length) :
    magnitudeText num scale behind = minusByte :: (pointText scale num ++
      (replicate (38 - (decimalDigits num).length) 0 ++ behind)) := by
  have hlen := length_digits_le hlt
  rw [magnitudeText, if_neg hnum]
  dsimp only
  rw [cString_integer2String hlt, length_cons, length_map, if_neg (by omega),
    integer2String_eq hlt behind, ← insertPoint_digits hnum hscale,
    show 39 - (decimalDigits num).length = 38 - (decimalDigits num).length + 1 by omega]
  rfl

theorem ended_iff : Ended scale num ↔ (decimalDigits num).length ≤ 37 ∨ 38 < scale := by
  rw [Ended, if_neg hnum, length_decimalDigits_le_iff, and_iff_right hlt]

/-- **A magnitude in the buffer**, with the sign in front of it. -/
theorem magnitudeText_pos (scale : Nat) (behind : List UInt8) :
    ∃ rest, magnitudeText num scale behind = minusByte :: (pointText scale num ++ rest) ∧
      cString rest = stringEnd scale num behind := by
  have hlen := length_digits_le hlt
  have hended : Ended scale num ↔ _ := ended_iff hnum hlt
  by_cases hlong : (decimalDigits num).length < scale
  · refine ⟨[0], ?_, ?_⟩
    · rw [magnitudeText, if_neg hnum]
      dsimp only
      rw [cString_integer2String hlt, length_cons, length_map, drop_one, tail_cons,
        if_pos (show (decimalDigits num).length + 1 ≤ scale from hlong),
        ← insertPoint_padded hnum hlong, paddedDigits, map_append, map_replicate, append_assoc,
        show scale - ((decimalDigits num).length + 1) + 1 =
          scale - (decimalDigits num).length by omega]
    · rw [cString_zero, stringEnd, if_pos (hended.mpr (by omega))]
  · refine ⟨_, magnitudeText_digits hnum hlt (by omega), ?_⟩
    rw [cString_zeros, stringEnd, show scale - 38 = 0 by omega, List.drop_zero]
    by_cases hfull : (decimalDigits num).length ≤ 37
    · rw [if_neg (by omega), if_pos (hended.mpr (.inl hfull))]
    · rw [if_pos (by omega), if_neg fun h => (hended.mp h).elim hfull (by omega)]

end

/-! ### The parser -/

theorem scanNumber_digits (str : List UInt8) (haveDp : Bool) (ds : List Nat) (rest : List UInt8)
    (coefficient dscale : Nat) (h : ∀ d ∈ ds, d < 10) :
    scanNumber str (ds.map digitByte ++ rest) haveDp coefficient dscale =
      scanNumber str rest haveDp (coefficient * 10 ^ ds.length + decimalValue ds)
      (if haveDp then dscale + ds.length else dscale) := by
  induction ds generalizing rest coefficient dscale with
  | nil =>
    simp [decimalValue]
  | cons d ds ih =>
    have hd := h d mem_cons_self
    have hvalue : (coefficient * 10 + d) * 10 ^ ds.length + decimalValue ds =
        coefficient * 10 ^ (ds.length + 1) + decimalValue (d :: ds) := by
      rw [← singleton_append, decimalValue_append, pow_succ]
      simp only [decimalValue, reverse_singleton, Nat.ofDigits_singleton]
      ring
    rw [map_cons, cons_append, scanNumber, if_pos (isDigit_digitByte hd),
      ih _ _ _ (forall_mem_cons.mp h).2, digitByte_toNat hd,
      Nat.add_sub_cancel_left, hvalue, length_cons]
    cases haveDp with
    | true => simp only [if_true, add_assoc, add_comm 1]
    | false => rfl

variable (negative : Bool)

def signText : List UInt8 := if negative then [minusByte] else []

section

variable (hdigits : ∀ d ∈ whole ++ fraction, d < 10)
include hdigits

theorem scanNumber_parts (str : List UInt8) :
    scanNumber str (whole.map digitByte ++ pointByte :: fraction.map digitByte) false 0 0 =
      .ok (decimalValue (whole ++ fraction), fraction.length, []) := by
  have hfraction := scanNumber_digits str true fraction [] (decimalValue whole) 0
    fun d hd => hdigits d (mem_append_right _ hd)
  rw [append_nil] at hfraction
  rw [scanNumber_digits str false whole _ 0 0 fun d hd => hdigits d (mem_append_left _ hd),
    scanNumber, if_neg (by decide), if_pos rfl, if_neg (by decide), zero_mul, zero_add,
    if_neg (by decide), hfraction, scanNumber, if_pos rfl, zero_add, decimalValue_append]

theorem unsignedFromStr_number (str : List UInt8) (negative : Bool) (hne : whole ++ fraction ≠ []) :
    unsignedFromStr str negative (whole.map digitByte ++ pointByte :: fraction.map digitByte) =
      .ok ⟨numericValue negative (decimalValue (whole ++ fraction)) fraction.length,
        fraction.length⟩ := by
  have hscan := scanNumber_parts hdigits str
  cases whole with
  | nil =>
    cases fraction with
    | nil => exact absurd rfl hne
    | cons d ds =>
      have hd : isDigit (digitByte d) = true := isDigit_digitByte (hdigits d mem_cons_self)
      rw [map_nil, nil_append, scanNumber, if_neg (by decide), if_pos rfl,
        if_neg (by decide)] at hscan
      simp only [unsignedFromStr, map_nil, nil_append, head?_cons, decide_true,
        if_true, drop_one, tail_cons, map_cons, headD_cons, hd]
      rw [map_cons] at hscan
      rw [hscan]
      rfl
  | cons d ds =>
    have hd : isDigit (digitByte d) = true := isDigit_digitByte (hdigits d mem_cons_self)
    have hpoint : ¬ (some (digitByte d) = some pointByte) := fun h =>
      digitByte_ne_point (hdigits d mem_cons_self) (Option.some.inj h)
    rw [map_cons, cons_append] at hscan ⊢
    simp only [unsignedFromStr, head?_cons, hpoint, decide_false, if_false, headD_cons, hd, if_true]
    rw [hscan]
    rfl

/-- **What the parser makes of digits around a point.** -/
theorem setVarFromStr_number (hne : whole ++ fraction ≠ []) :
    setVarFromStr (signText negative ++
        (whole.map digitByte ++ pointByte :: fraction.map digitByte)) =
      .ok ⟨numericValue negative (decimalValue (whole ++ fraction)) fraction.length,
        fraction.length⟩ := by
  have hnumber := fun str => unsignedFromStr_number hdigits str negative hne
  have hhead : ∀ c, isDigit c = false → c ≠ pointByte →
      (whole.map digitByte ++ pointByte :: fraction.map digitByte).head? ≠ some c := by
    intro c hc hpoint h
    cases whole with
    | nil => exact hpoint (Option.some.inj h).symm
    | cons d ds => exact digitByte_ne (hdigits d mem_cons_self) hc (Option.some.inj h)
  cases negative with
  | true => exact hnumber _
  | false =>
    have hminus := hhead minusByte rfl (by decide)
    have hplus := hhead 43 rfl (by decide)
    rw [signText, if_neg (by decide), nil_append, setVarFromStr]
    simp only [hminus, hplus, or_self, if_false, decide_false]
    exact hnumber _

end

/-! ### The receiver -/

/-- **The string that is parsed**: the sign, the digits around the point, and what lies behind the
buffer if the string fills it. -/
theorem tdsRecvTypeNumeric_eq {scale num length : Nat} (hlt : num < 10 ^ 38)
    (hlength : length ≤ 16) (hnum : num < 256 ^ length)
    (hbehind : num = 0 → scale ≤ 38 + behind.length) :
    tdsRecvTypeNumeric scale (numericData negative length num) behind =
      setVarFromStr (signText (negative && num ≠ 0) ++
        (pointText scale num ++ stringEnd scale num behind)) := by
  have hmagnitude : leNat ((numericData negative length num).drop 1) = num := by
    rw [numericData, drop_one, tail_cons, leNat_leBytes, Nat.mod_eq_of_lt hnum]
  have hsign : (numericData negative length num).headD 0 = 1 ↔ negative = false := by
    cases negative with
    | true | false => simp [numericData]
  have hdata : ¬ 16 < (numericData negative length num).length - 1 := by
    rw [numericData, length_cons, length_leBytes]
    omega
  unfold tdsRecvTypeNumeric
  simp only [hmagnitude, hsign, if_neg hdata]
  by_cases hzero : num = 0
  · subst hzero
    simp only [ne_eq, not_true_eq_false, and_false, if_false, decide_false, Bool.and_false]
    rw [magnitudeText_zero (hbehind rfl)]
    rfl
  · obtain ⟨rest, htext, hrest⟩ := magnitudeText_pos hzero hlt scale behind
    have hbody := cString_append (pointText_ne_zero scale num) rest
    rw [hrest] at hbody
    simp only [htext, ne_eq, hzero, not_false_eq_true, and_true, decide_true, Bool.and_true]
    cases negative with
    | true =>
      have hne : ∀ c ∈ [minusByte], c ≠ 0 := by simp [minusByte]
      have hminus := cString_append hne (pointText scale num ++ rest)
      rw [hbody] at hminus
      exact congrArg setVarFromStr hminus
    | false => exact congrArg setVarFromStr hbody

theorem numericValue_sign (num scale : Nat) :
    numericValue (negative && num ≠ 0) num scale = numericValue negative num scale := by
  by_cases hzero : num = 0
  · subst hzero
    simp [numericValue]
  · simp [hzero]

section

variable (negative : Bool) {scale num length : Nat} (hlt : num < 10 ^ 38)
  (hlength : length ≤ 16) (hnum : num < 256 ^ length)

include hlt hlength hnum

theorem recv_of_stringEnd (hbehind : num = 0 → scale ≤ 38 + behind.length)
    (hend : stringEnd scale num behind = []) :
    tdsRecvTypeNumeric scale (numericData negative length num) behind =
      .ok ⟨numericValue negative num scale, scale⟩ := by
  have hparse := setVarFromStr_number (negative && num ≠ 0)
    (fun d hd => parts_lt hd) (parts_ne_nil scale num)
  rw [decimalValue_parts, length_scaleDigits, numericValue_sign] at hparse
  rwa [tdsRecvTypeNumeric_eq negative hlt hlength hnum hbehind, hend, append_nil]

theorem recv_ended (hend : Ended scale num) (behind : List UInt8) :
    tdsRecvTypeNumeric scale (numericData negative length num) behind =
      .ok ⟨numericValue negative num scale, scale⟩ := by
  refine recv_of_stringEnd negative hlt hlength hnum (fun hzero => ?_) (if_pos hend)
  rw [Ended, if_pos hzero] at hend
  omega

/-- Without the terminator a digit behind the text is one more digit of the number. -/
theorem recv_not_ended (hend : ¬ Ended scale num) :
    tdsRecvTypeNumeric scale (numericData negative length num)
        (replicate (scale - 38) 0 ++ [digitByte 1]) =
      .ok ⟨numericValue (negative && num ≠ 0) (num * 10 + 1) (scale + 1), scale + 1⟩ := by
  have hdigits : ∀ d ∈ wholeDigits scale num ++ (scaleDigits scale num ++ [1]), d < 10 := by
    rw [← append_assoc]
    exact forall_mem_append.mpr ⟨fun d hd => parts_lt hd, by decide⟩
  have hparse := setVarFromStr_number (negative && num ≠ 0) hdigits (by simp)
  have hvalue := decimalValue_concat (wholeDigits scale num ++ scaleDigits scale num) 1
  rw [decimalValue_parts, append_assoc] at hvalue
  rw [hvalue, length_append, length_scaleDigits, length_singleton] at hparse
  rw [tdsRecvTypeNumeric_eq negative hlt hlength hnum (by simp; omega), stringEnd, if_neg hend,
    drop_left' length_replicate, ← hparse]
  simp [pointText, cString, digitByte]

end

/-! ### The round trip -/

/-- **What sending a printed value and receiving it should do.**  A value with more digits in front
of the point than the type has is the overflow error; otherwise the token has one of the four
lengths, holds the magnitude, and is read back as the value with its fractional digits cut off at
the scale, whatever lies behind the receiver's buffer. -/
def SentExactly (precision scale : Nat) (negative : Bool) (whole : Nat) (fraction : List (Fin 10)) :
    Prop :=
  if 10 ^ (precision - scale) ≤ whole then
    tdsSendTypeNumeric precision scale (printNumeric negative whole fraction) = .error .overflow
  else
    ∃ (length : Nat) (data : List UInt8), length ∈ [4, 8, 12, 16] ∧
      tdsSendTypeNumeric precision scale (printNumeric negative whole fraction) =
        .ok (UInt8.ofNat (length + 1) :: data) ∧
      data.length = length + 1 ∧
      leNat (data.drop 1) = scaledValue scale whole fraction ∧
      ∀ behind, tdsRecvTypeNumeric scale data behind =
        .ok ⟨printedValue negative whole (fraction.take scale), scale⟩

theorem overflow_iff {precision scale whole : Nat} (hs : scale ≤ precision) :
    precision < (decimalDigits whole).length + scale ↔ 10 ^ (precision - scale) ≤ whole := by
  have hdigits := length_decimalDigits_le_iff (n := whole) (k := precision - scale)
  omega

/-- **A numeric value survives the wire exactly when its string leaves room for the terminator**,
or is refused by the sender. -/
theorem numeric_exact_iff (precision scale : Nat) (negative : Bool) (whole : Nat)
    (fraction : List (Fin 10)) (hs : scale ≤ precision) (hp : precision ≤ 38) :
    SentExactly precision scale negative whole fraction ↔
      10 ^ (precision - scale) ≤ whole ∨ Terminated scale (scaledValue scale whole fraction) := by
  have hsend := tdsSendTypeNumeric_eq precision scale negative whole fraction hp
  rw [SentExactly]
  by_cases hover : 10 ^ (precision - scale) ≤ whole
  · rw [if_pos hover]
    rw [if_pos ((overflow_iff hs).mpr hover)] at hsend
    exact ⟨fun _ => Or.inl hover, fun _ => hsend⟩
  have hfits : ¬ precision < (decimalDigits whole).length + scale :=
    fun h => hover ((overflow_iff hs).mp h)
  rw [if_neg hfits] at hsend
  rw [if_neg hover]
  obtain ⟨hclass, hwide⟩ := numericLength_spec
    (show (decimalDigits whole).length + scale ≤ 38 by omega)
  have hbound := scaledValue_lt scale whole fraction
  have hlt : scaledValue scale whole fraction < 10 ^ 38 :=
    lt_of_lt_of_le hbound (Nat.pow_le_pow_right (by decide) (by omega))
  have hnum := lt_of_lt_of_le hbound hwide
  have hscale : scale ≤ 38 := by omega
  have hlength : numericLength ((decimalDigits whole).length + scale) ≤ 16 := by omega
  rw [or_iff_right hover]
  constructor
  · rintro ⟨length, data, -, hdata, -, -, hrecv⟩
    by_contra hterm
    rw [hsend] at hdata
    obtain ⟨-, hdata⟩ := cons.inj (Except.ok.inj hdata)
    have hread := hrecv (replicate (scale - 38) 0 ++ [digitByte 1])
    rw [← hdata, recv_not_ended negative hlt hlength hnum
      (mt (ended_iff_terminated hscale).mp hterm)] at hread
    exact Nat.succ_ne_self scale (congrArg Numeric.dscale (Except.ok.inj hread))
  · intro hterm
    refine ⟨numericLength ((decimalDigits whole).length + scale), _, ?_, hsend, ?_, ?_, ?_⟩
    · simpa using hclass
    · rw [numericData, length_cons, length_leBytes]
    · rw [numericData, drop_one, tail_cons, leNat_leBytes, Nat.mod_eq_of_lt hnum]
    · intro behind
      rw [recv_ended negative hlt hlength hnum ((ended_iff_terminated hscale).mpr hterm),
        numericValue_scaledValue]

/-- The sender refuses nothing of `-12.345` at `numeric(5, 2)`, which is read back as `-12.34`. -/
theorem numeric_exact_iff_truncated :
    SentExactly 5 2 true 12 [3, 4, 5] ∧ printedValue true 12 [3, 4] = -1234 / 100 := by
  refine ⟨(numeric_exact_iff 5 2 true 12 [3, 4, 5] (by decide) (by decide)).mpr ?_, ?_⟩
  · exact Or.inr (by decide +kernel)
  · decide +kernel

/-- **38 digits fill the buffer**: `10 ^ 37` at `numeric(38, 0)` is sent, and what the receiver
makes of the token depends on the byte behind its buffer. -/
theorem full_buffer_reads_on :
    ∃ data, tdsSendTypeNumeric 38 0 (printNumeric false (10 ^ 37) []) = .ok (17 :: data) ∧
      tdsRecvTypeNumeric 0 data [0] = .ok ⟨10 ^ 37, 0⟩ ∧
      tdsRecvTypeNumeric 0 data [digitByte 7] = .ok ⟨10 ^ 37 + 7 / 10, 1⟩ ∧
      tdsRecvTypeNumeric 0 data [pointByte] = .error (.invalidInput
        (printNumeric false (10 ^ 37) [] ++ [pointByte, pointByte])) := by
  refine ⟨1 :: leBytes 16 (10 ^ 37), ?_, ?_, ?_, ?_⟩ <;> decide +kernel

/-! ### A token and the memory behind it -/

/-- `TdsTypeNumericToDatum`, on the memory from the value on: it copies 16 bytes of magnitude,
whatever the length of the value. -/
def tdsTypeNumericToDatum (scale : Nat) (memory behind : List UInt8) :
    Except NumericError Numeric :=
  let sign := memory.headD 0
  let num := leNat ((memory.drop 1).take 16)
  let decString := magnitudeText num scale behind
  setVarFromStr (cString (if sign = 1 ∧ num ≠ 0 then decString.drop 1 else decString))

/-- **The value is that of the token's own bytes**: both functions give the same for it, whatever
follows the token in memory and whatever lies behind the buffer of the digits. -/
def OwnBytes (scale : Nat) (token : List UInt8) : Prop :=
  ∃ out, ∀ following behind : List UInt8, 12 ≤ following.length →
    tdsTypeNumericToDatum scale (token ++ following) behind = out ∧
      tdsRecvTypeNumeric scale token behind = out

theorem tdsTypeNumericToDatum_eq (scale : Nat) (memory : List UInt8) :
    tdsTypeNumericToDatum scale memory behind =
      tdsRecvTypeNumeric scale (memory.take 17) behind := by
  have hlen : ¬ 16 < (memory.take 17).length - 1 := by
    rw [length_take]
    omega
  have hhead : (memory.take 17).headD 0 = memory.headD 0 := by
    cases memory with
    | nil | cons c memory => rfl
  unfold tdsRecvTypeNumeric
  rw [if_neg hlen, hhead, drop_take]
  rfl

section

variable {scale : Nat} {sign : UInt8} {bytes : List UInt8}

theorem recv_sign (behind : List UInt8) : tdsRecvTypeNumeric scale (sign :: bytes) behind =
    tdsRecvTypeNumeric scale (numericData (sign ≠ 1) bytes.length (leNat bytes)) behind := by
  rw [numericData, leBytes_leNat]
  by_cases hsign : sign = 1 <;> simp [tdsRecvTypeNumeric, hsign]

/-- The high bytes of the magnitude of a short token are those behind it. -/
theorem toDatum_short (hlen : bytes.length = 4 ∨ bytes.length = 8 ∨ bytes.length = 12) {i : Nat}
    (hpos : 0 < i) (hi : i < 3) : tdsTypeNumericToDatum scale (sign :: bytes ++ leBytes 16 i) [] =
      .ok ⟨numericValue (sign ≠ 1) (leNat bytes + 256 ^ bytes.length * i) scale, scale⟩ := by
  have hlow := leNat_lt bytes
  obtain ⟨hpos, hlt, hhigh⟩ : 0 < 256 ^ bytes.length * i ∧
      leNat bytes + 256 ^ bytes.length * i < 10 ^ 37 ∧ i < 256 ^ (16 - bytes.length) := by
    rcases hlen with h | h | h <;> rw [h] at hlow ⊢ <;> omega
  have hnum : leNat (bytes ++ leBytes (16 - bytes.length) i) =
      leNat bytes + 256 ^ bytes.length * i := by
    rw [leNat_append, leNat_leBytes, Nat.mod_eq_of_lt hhigh]
  have hall : bytes.length + (16 - bytes.length) = 16 := by omega
  have htake := take_leBytes (16 - bytes.length) bytes.length i
  rw [Nat.sub_add_cancel (by omega)] at htake
  rw [tdsTypeNumericToDatum_eq, cons_append, take_succ_cons, take_append,
    take_of_length_le (by omega), htake, recv_sign, hnum, length_append, length_leBytes, hall]
  refine recv_ended _ (by omega) le_rfl (by omega) ?_ []
  rw [Ended, if_neg (by omega)]
  exact .inl hlt

theorem numericValue_inj {negative : Bool} {m n : Nat}
    (h : numericValue negative m scale = numericValue negative n scale) : m = n := by
  have hpos : (10 : ℚ) ^ scale ≠ 0 := by positivity
  cases negative with
  | true | false => simpa [numericValue, div_left_inj' hpos] using h

/-! ### 39 digits -/

/-- 39 digits and the sign fill the buffer, and the reversal goes on behind it. -/
theorem integer2String_full {num : Nat} (hnum : 10 ^ 38 ≤ num) (hlt : num < 10 ^ 39)
    (hbehind : ∀ c ∈ behind, c ≠ 0) : integer2String num (replicate 40 0 ++ behind) =
      behind.reverse ++ minusByte :: (decimalDigits num).map digitByte := by
  have hdigits : Nat.digits 10 num = (decimalDigits num).reverse := by simp [decimalDigits]
  have hlen : (decimalDigits num).length = 39 :=
    le_antisymm (length_decimalDigits_le_iff.mpr hlt)
      (Nat.not_le.mp (mt length_decimalDigits_le_iff.mp (Nat.not_lt.mpr hnum)))
  have hput := putDigits_eq 39 num [] (replicate 40 0 ++ behind) hlt
    (by rw [hdigits, length_reverse, length_append, length_replicate]; omega)
  have hdrop : (replicate 40 (0 : UInt8) ++ behind).drop 39 = 0 :: behind := rfl
  rw [hdigits, length_reverse, hlen, hdrop, length_nil, zero_add, nil_append, nil_append] at hput
  have hne : ∀ c ∈ (decimalDigits num).reverse.map digitByte ++ minusByte :: behind, c ≠ 0 :=
    forall_mem_append.mpr ⟨map_digitByte_ne_zero fun d hd => decimalDigits_lt (mem_reverse.mp hd),
      forall_mem_cons.mpr ⟨by decide, hbehind⟩⟩
  rw [integer2String, hput]
  dsimp only
  rw [set_append_right _ _ (by simp [hlen]), length_map, length_reverse, hlen, Nat.sub_self,
    set_cons_zero, reverseString, cString_of_ne_zero hne, drop_length]
  simp

theorem take_shiftPoint (len : Nat) {j : Nat} (scale : Nat) (hj : j + scale ≤ len) (t : UInt8)
    (mem : List UInt8) : (shiftPoint len scale t mem).1.take j = mem.take j := by
  induction scale generalizing t mem with
  | zero => rfl
  | succ scale ih =>
    rw [shiftPoint, ih (by omega), take_set, set_eq_of_length_le]
    rw [length_take]
    omega

/-- Enough letters behind the buffer come to the front. -/
theorem take_magnitudeText_full (scale : Nat) {num : Nat} (hnum : 10 ^ 38 ≤ num)
    (hlt : num < 10 ^ 39) {c : UInt8} (hc : c ≠ 0) :
    (magnitudeText num scale (replicate (scale + 2) c)).take 2 = [c, c] := by
  have hbehind : ∀ d ∈ replicate (scale + 2) c, d ≠ 0 := fun d hd => eq_of_mem_replicate hd ▸ hc
  have hfull := integer2String_full hnum hlt hbehind
  rw [reverse_replicate] at hfull
  rw [magnitudeText, if_neg (by omega), hfull]
  dsimp only
  rw [cString_of_ne_zero (forall_mem_append.mpr ⟨hbehind, signed_ne_zero⟩),
    if_neg (by simp; omega), magnitudeText.insertPoint]
  dsimp only
  rw [take_set, take_shiftPoint _ _ (by simp; omega), set_eq_of_length_le (by simp)]
  rfl

theorem recv_full (scale : Nat) (sign : UInt8) (hnum : 10 ^ 38 ≤ leNat bytes)
    (hlen : bytes.length = 16) {c : UInt8} (hc : c = 121 ∨ c = 122) :
    ∃ text, tdsRecvTypeNumeric scale (sign :: bytes) (replicate (scale + 2) c) =
      .error (.invalidInput (c :: text)) := by
  have hlt := leNat_lt bytes
  rw [hlen] at hlt
  have hne : c ≠ 0 := by rcases hc with rfl | rfl <;> decide
  have htake := take_magnitudeText_full scale hnum (by omega) hne
  obtain ⟨rest, htext⟩ : ∃ rest,
      magnitudeText (leNat bytes) scale (replicate (scale + 2) c) = c :: c :: rest :=
    ⟨_, (take_append_drop 2 _).symm.trans (congrArg (· ++ _) htake)⟩
  have hparse : ∀ str, setVarFromStr (c :: str) = .error (.invalidInput (c :: str)) := by
    intro str
    rcases hc with rfl | rfl <;> rfl
  have hstring : ∀ str, cString (c :: str) = c :: cString str := fun str => by
    simp [cString, hne]
  unfold tdsRecvTypeNumeric
  simp only [length_cons, Nat.add_sub_cancel, hlen, lt_irrefl, if_false, drop_one, tail_cons, htext]
  split_ifs
  · exact ⟨_, by rw [hstring, hparse]⟩
  · exact ⟨_, by rw [hstring, hparse]⟩

/-- **A value is that of its token's own bytes** exactly when the token has 17 bytes and its digits
leave room for the terminator. -/
theorem ownBytes_iff (scale : Nat) {token : List UInt8} (htoken : token.length ∈ [5, 9, 13, 17]) :
    OwnBytes scale token ↔ token.length = 17 ∧ Ended scale (leNat (token.drop 1)) := by
  obtain ⟨sign, bytes, rfl⟩ := exists_cons_of_length_pos (l := token) (by simp at htoken; omega)
  simp only [length_cons, mem_cons, not_mem_nil, or_false, drop_one, tail_cons] at htoken ⊢
  have hnum := leNat_lt bytes
  constructor
  · rintro ⟨out, h⟩
    have hlen : bytes.length + 1 = 17 := by
      by_contra hlen
      have hfirst := (h (leBytes 16 1) [] (by decide)).1
      have hsecond := (h (leBytes 16 2) [] (by decide)).1
      rw [toDatum_short (by omega) (by decide) (by decide)] at hfirst hsecond
      have heq := numericValue_inj
        (congrArg Numeric.value (Except.ok.inj (hfirst.trans hsecond.symm)))
      have hpos : 0 < 256 ^ bytes.length := by positivity
      omega
    have hrecv : ∀ behind, tdsRecvTypeNumeric scale (sign :: bytes) behind = out :=
      fun behind => (h (leBytes 16 0) behind (by decide)).2
    refine ⟨hlen, by_contra fun hend => ?_⟩
    by_cases hlt : leNat bytes < 10 ^ 38
    · have hread := (hrecv (replicate (scale - 38) 0 ++ [digitByte 1])).trans
        (hrecv (replicate (scale - 38) 0)).symm
      rw [recv_sign, recv_sign, recv_not_ended _ hlt (by omega) hnum hend,
        recv_of_stringEnd _ hlt (by omega) hnum (by simp; omega)
          (by rw [stringEnd, if_neg hend]; simp [cString])] at hread
      exact Nat.succ_ne_self scale (congrArg Numeric.dscale (Except.ok.inj hread))
    · obtain ⟨y, hy⟩ := recv_full scale sign (Nat.not_lt.mp hlt) (by omega) (.inl rfl)
      obtain ⟨z, hz⟩ := recv_full scale sign (Nat.not_lt.mp hlt) (by omega) (.inr rfl)
      cases (hy.symm.trans (hrecv _)).trans ((hrecv _).symm.trans hz)
  · rintro ⟨hlen, hend⟩
    have hlt : leNat bytes < 10 ^ 38 := by
      unfold Ended at hend
      split_ifs at hend <;> omega
    have hrecv := recv_ended (sign ≠ 1) hlt (by omega) hnum hend
    refine ⟨_, fun following behind _ => ⟨?_, (recv_sign behind).trans (hrecv behind)⟩⟩
    rw [tdsTypeNumericToDatum_eq, take_left' (by simpa using hlen), recv_sign, hrecv]

end

/-- A value of 17 bytes. -/
theorem ownBytes_iff_one : OwnBytes 2 (1 :: leBytes 16 1) :=
  (ownBytes_iff 2 (by decide)).mpr (by decide)

/-- **A value of 5 bytes takes the next byte into its magnitude.** -/
theorem short_token_reads_on :
    tdsRecvTypeNumeric 0 (1 :: leBytes 4 7) [] = .ok ⟨7, 0⟩ ∧
      tdsTypeNumericToDatum 0 (1 :: leBytes 4 7 ++ leBytes 12 0) [] = .ok ⟨7, 0⟩ ∧
      tdsTypeNumericToDatum 0 (1 :: leBytes 4 7 ++ leBytes 12 1) [] = .ok ⟨7 + 256 ^ 4, 0⟩ := by
  refine ⟨?_, ?_, ?_⟩ <;> decide +kernel

/-! ### The bounds of the buffer -/

/-- Nothing behind the 40 bytes has changed, and there is a terminator in them. -/
def Buffered (mem behind : List UInt8) : Prop :=
  ∃ buf : List UInt8, buf.length = 40 ∧ 0 ∈ buf ∧ mem = buf ++ behind

/-- The buffer takes what is written, and the string in it ends in it, unless it moves to a new
string. -/
def StaysInBuffer (num scale : Nat) : Prop :=
  ∀ behind : List UInt8,
    let decString := integer2String num (List.replicate 40 0 ++ behind)
    (num ≠ 0 → Buffered decString behind) ∧
    (num = 0 ∨ scale < (cString decString).length →
      Buffered (magnitudeText num scale behind) behind)

theorem Buffered.zero_mem {mem : List UInt8} (h : Buffered mem behind) : 0 ∈ mem := by
  obtain ⟨buf, -, hzero, rfl⟩ := h
  exact mem_append_left _ hzero

theorem buffered_iff {text : List UInt8} (htext : ∀ c ∈ text, c ≠ 0) {n : Nat}
    (hlen : text.length + n = 40) :
    Buffered (text ++ (replicate n 0 ++ behind)) behind ↔ n ≠ 0 := by
  constructor
  · rintro ⟨buf, hbuf, hzero, h⟩ rfl
    obtain ⟨rfl, -⟩ := append_inj h (by omega)
    exact htext 0 hzero rfl
  · intro hn
    exact ⟨text ++ replicate n 0, by simpa using hlen, by simp [hn], by simp⟩

theorem staysInBuffer_zero (scale : Nat) : StaysInBuffer 0 scale ↔ scale < 38 := by
  constructor
  · intro h
    by_contra hscale
    -- bytes other than 0 up to the last one that is written
    obtain ⟨-, hbuffered⟩ := h (replicate (scale - 38) 1)
    have hzero := (hbuffered (.inl rfl)).zero_mem
    rw [magnitudeText_zeros (by rw [length_replicate]; omega), drop_eq_nil_of_le (by simp; omega),
      append_nil] at hzero
    exact pointText_ne_zero scale 0 0 hzero rfl
  · intro hscale behind
    refine ⟨fun h => absurd rfl h, fun _ => ?_⟩
    rw [magnitudeText_zeros (by omega), drop_append_of_le_length (by simp; omega), drop_replicate,
      buffered_iff (pointText_ne_zero scale 0)]
    · omega
    · rw [pointText]
      simp [wholeDigits, scaleDigits]
      omega

theorem length_pointText {scale num : Nat} (hnum : num ≠ 0)
    (hscale : scale ≤ (decimalDigits num).length) :
    (pointText scale num).length = (decimalDigits num).length + 1 := by
  rw [pointText, length_append, length_cons, length_map, length_map, length_wholeDigits hnum,
    length_scaleDigits]
  omega

theorem not_staysInBuffer {num : Nat} (hnum : 10 ^ 38 ≤ num) (hlt : num < 10 ^ 39) (scale : Nat) :
    ¬ StaysInBuffer num scale := by
  intro h
  have hzero := ((h []).1 (by omega)).zero_mem
  rw [integer2String_full hnum hlt (by simp), reverse_nil, nil_append] at hzero
  exact signed_ne_zero 0 hzero rfl

theorem staysInBuffer_pos {num : Nat} (hnum : num ≠ 0) (hlt : num < 10 ^ 38) (scale : Nat) :
    StaysInBuffer num scale ↔ num < 10 ^ 37 ∨ 38 < scale := by
  have hlen := length_digits_le hlt
  have hfull : num < 10 ^ 37 ↔ (decimalDigits num).length ≤ 37 := length_decimalDigits_le_iff.symm
  have hprinted (behind : List UInt8) :
      Buffered (integer2String num (replicate 40 0 ++ behind)) behind := by
    rw [integer2String_eq hlt, buffered_iff signed_ne_zero]
    · omega
    · simp
      omega
  have hpoint (behind : List UInt8) (hscale : scale ≤ (decimalDigits num).length) :
      Buffered (magnitudeText num scale behind) behind ↔ num < 10 ^ 37 := by
    rw [magnitudeText_digits hnum hlt hscale, ← cons_append,
      buffered_iff (forall_mem_cons.mpr ⟨by decide, pointText_ne_zero scale num⟩)]
    · omega
    · rw [length_cons, length_pointText hnum hscale]
      omega
  simp only [StaysInBuffer, hprinted, cString_integer2String hlt, hnum, false_or, length_cons,
    length_map]
  constructor
  · intro h
    by_cases hscale : scale ≤ (decimalDigits num).length
    · exact .inl ((hpoint [] hscale).mp ((h []).2 (by omega)))
    · omega
  · intro h behind
    exact ⟨fun _ => trivial, fun hscale => (hpoint behind (by omega)).mpr (by omega)⟩

/-- **When the buffer takes the text of a magnitude**: zero with a scale below 38, up to 37 digits,
and 38 digits that move to a new string. -/
theorem staysInBuffer_iff (scale : Nat) {magnitude : List UInt8} (h : magnitude.length ≤ 16) :
    StaysInBuffer (leNat magnitude) scale ↔
      if leNat magnitude = 0 then scale < 38
      else leNat magnitude < 10 ^ 37 ∨ leNat magnitude < 10 ^ 38 ∧ 38 < scale := by
  have hnum : leNat magnitude < 10 ^ 39 := calc
    leNat magnitude < 256 ^ magnitude.length := leNat_lt magnitude
    _ ≤ 256 ^ 16 := Nat.pow_le_pow_right (by decide) h
    _ < 10 ^ 39 := by decide
  split_ifs with hzero
  · rw [hzero, staysInBuffer_zero]
  · by_cases hlt : leNat magnitude < 10 ^ 38
    · rw [staysInBuffer_pos hzero hlt]
      omega
    · have := not_staysInBuffer (not_lt.mp hlt) hnum scale
      simp only [this, false_iff]
      omega

theorem staysInBuffer_one : StaysInBuffer 1 0 :=
  (staysInBuffer_iff 0 (show [1, 0, 0, 0].length ≤ 16 by decide)).mpr (by decide)

/-- The point takes the place of the terminator. -/
theorem unterminated_digits : ¬ StaysInBuffer (10 ^ 37) 0 := fun h =>
  absurd ((h []).2 (.inr (by decide +kernel))).zero_mem (by decide +kernel)

end Babelfish.Tds
