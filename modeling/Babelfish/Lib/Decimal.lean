import Mathlib.Data.Nat.Digits.Lemmas

/-!
# Decimal digits in a string

A list of digits, highest first, its value and its characters.

* `decimalValue_append`, `decimalValue_digits`: the value of digits.
* `length_decimalDigits_le_iff`: how many digits a number has.
* `digitByte_toNat`, `isDigit_digitByte`: the characters of the digits.
-/

namespace Babelfish.Lib

open List

variable {d n : Nat} {ds : List Nat}

/-- The value of the digits, highest first. -/
def decimalValue (ds : List Nat) : Nat := Nat.ofDigits 10 ds.reverse

/-- The digits of a number, highest first; none for 0. -/
def decimalDigits (n : Nat) : List Nat := (Nat.digits 10 n).reverse

def digitByte (d : Nat) : UInt8 := UInt8.ofNat (48 + d)

def isDigit (c : UInt8) : Bool := decide (48 ≤ c.toNat ∧ c.toNat ≤ 57)

theorem decimalValue_append (a b : List Nat) :
    decimalValue (a ++ b) = decimalValue a * 10 ^ b.length + decimalValue b := by
  rw [decimalValue, reverse_append, Nat.ofDigits_append, length_reverse, decimalValue,
    decimalValue, Nat.mul_comm, Nat.add_comm]

theorem decimalValue_concat (a : List Nat) (d : Nat) :
    decimalValue (a ++ [d]) = decimalValue a * 10 + d := by
  rw [decimalValue_append]
  simp [decimalValue]

theorem decimalValue_lt (h : ∀ d ∈ ds, d < 10) : decimalValue ds < 10 ^ ds.length := by
  rw [decimalValue, ← length_reverse]
  exact Nat.ofDigits_lt_base_pow_length (by decide) fun d hd => h d (mem_reverse.mp hd)

theorem decimalValue_zeros (n : Nat) : decimalValue (List.replicate n 0) = 0 := by
  rw [decimalValue, reverse_replicate]
  induction n with
  | zero => rfl
  | succ n ih => rw [replicate_succ, Nat.ofDigits_cons, ih]

theorem decimalValue_digits (n : Nat) : decimalValue (decimalDigits n) = n := by
  rw [decimalValue, decimalDigits, reverse_reverse, Nat.ofDigits_digits]

theorem decimalDigits_lt (h : d ∈ decimalDigits n) : d < 10 :=
  Nat.digits_lt_base (by decide) (mem_reverse.mp h)

theorem length_decimalDigits_le_iff {k : Nat} : (decimalDigits n).length ≤ k ↔ n < 10 ^ k := by
  rw [decimalDigits, length_reverse]
  exact Nat.digits_length_le_iff (by decide) n

theorem decimalDigits_ne_nil (h : n ≠ 0) : decimalDigits n ≠ [] := by
  rw [decimalDigits, Ne, reverse_eq_nil_iff]
  exact Nat.digits_ne_nil_iff_ne_zero.mpr h

theorem head_decimalDigits (h : decimalDigits n = d :: ds) : d ≠ 0 := by
  rintro rfl
  have hlt : n < 10 ^ ds.length := by
    rw [← decimalValue_digits n, h, show 0 :: ds = [0] ++ ds from rfl, decimalValue_append]
    have := decimalValue_lt fun e he => decimalDigits_lt (h ▸ mem_cons_of_mem 0 he)
    simpa [decimalValue] using this
  have hle := length_decimalDigits_le_iff.mpr hlt
  rw [h, length_cons] at hle
  omega

theorem digitByte_toNat (h : d < 10) : (digitByte d).toNat = 48 + d := by
  rw [digitByte, UInt8.toNat_ofNat']
  omega

theorem isDigit_digitByte (h : d < 10) : isDigit (digitByte d) = true := by
  rw [isDigit, digitByte_toNat h]
  simp only [decide_eq_true_eq]
  omega

theorem digitByte_ne (h : d < 10) {c : UInt8} (hc : isDigit c = false) : digitByte d ≠ c := by
  rintro rfl
  rw [isDigit_digitByte h] at hc
  simp at hc

end Babelfish.Lib
