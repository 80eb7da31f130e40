import Babelfish.Lib.Decimal
import Babelfish.Lib.Wrap

/-!
# Printing an amount of money

`fixeddecimal2str` prints into a buffer of the caller: the integral part, whose digits are computed
lowest first and then reversed in place, a point, and the fractional part with leading zeros, whose
digits are written from the end.  A buffer is modelled with the places that were written, so that it
can be said which of them lie inside of it.
-/

namespace Babelfish.Money

open Lib

/-! ### The buffer -/

/-- The memory behind a pointer, and the offsets that were written. -/
structure Buffer where
  mem : Nat → UInt8
  written : List Nat

def Buffer.write (b : Buffer) (i : Nat) (c : UInt8) : Buffer :=
  ⟨Function.update b.mem i c, i :: b.written⟩

def Buffer.text (b : Buffer) (i n : Nat) : List UInt8 := (List.range n).map fun k => b.mem (i + k)

/-! ### Integers -/

/-- `'0' + remainder`, or `'0' + -remainder` for a negative number. -/
def digitOf (negative : Bool) (remainder : Int) : UInt8 :=
  digitByte (if negative then -remainder else remainder).toNat

/-- The loop that computes the digits backwards: the end and the buffer.  A 64-bit number has at
most 19 digits, so 20 rounds are enough. -/
def digitLoop (negative : Bool) : Nat → Nat → Int → Buffer → Nat × Buffer
  | 0, str, _, b => (str, b)
  | fuel + 1, str, value, b =>
    let oldval := value
    let value := value.tdiv 10
    let remainder := oldval - value * 10
    let b := b.write str (digitOf negative remainder)
    if value ≠ 0 then digitLoop negative fuel (str + 1) value b else (str + 1, b)

/-- The loop that reverses the string between `start` and `str`. -/
def reverseLoop : Nat → Nat → Nat → Buffer → Buffer
  | 0, _, _, b => b
  | fuel + 1, start, str, b =>
    if start < str then
      let swap := b.mem start
      let b := b.write start (b.mem str)
      let b := b.write str swap
      reverseLoop fuel (start + 1) (str - 1) b
    else b

/-- `pg_int64tostr`: the end of the string and the buffer. -/
def pgInt64tostr (str : Nat) (value : Int) (b : Buffer) : Nat × Buffer :=
  let (start, b) := if value < 0 then (str + 1, b.write str 45) else (str, b)
  let (fin, b) := digitLoop (value < 0) 20 start value b
  let b := b.write fin 0
  (fin, reverseLoop (fin - start) start (fin - 1) b)

/-- The loop that writes `padding` digits: what is left of the number, and the buffer. -/
def padLoop (negative : Bool) (start : Nat) : Nat → Int → Buffer → Int × Buffer
  | 0, num, b => (num, b)
  | padding + 1, num, b =>
    let oldval := num
    let num := num.tdiv 10
    let remainder := oldval - num * 10
    padLoop negative start padding num (b.write (start + padding) (digitOf negative remainder))

/-- `pg_int64tostr_zeropad`: the end of the string and the buffer. -/
def pgInt64tostrZeropad (str : Nat) (value : Int) (padding : Nat) (b : Buffer) : Nat × Buffer :=
  let (num, b) :=
    if value < 0 then padLoop true (str + 1) (padding - 1) value (b.write str 45)
    else padLoop false str padding value b
  if num ≠ 0 then pgInt64tostr str value b
  else (str + padding, b.write (str + padding) 0)

/-! ### Amounts -/

/-- The amount with fewer than four digits behind the point.  `abs` takes an `int`. -/
def dropDigits (val multiplier : Int) : Int :=
  let scaleFactor := (10000 : Int).tdiv (multiplier * 10)
  let lastDigit := (wrap 32 |wrap 32 (val.tdiv scaleFactor)|).tmod 10
  let val := val.tdiv multiplier
  if lastDigit ≥ 5 then if val ≥ 0 then val + 1 else val - 1 else val

/-- `fixeddecimal2str`: the end of the string and the buffer. -/
def fixeddecimal2str (val : Int) (multiplier : Int) (scale : Nat) (b : Buffer) : Nat × Buffer :=
  let val := if scale < 4 then dropDigits val multiplier else val
  let integralpart := val.tdiv multiplier
  let fractionalpart := val.tmod multiplier
  let (ptr, fractionalpart, b) :=
    if val < 0 then
      if integralpart = 0 then (1, -fractionalpart, b.write 0 45) else (0, -fractionalpart, b)
    else (0, fractionalpart, b)
  let (ptr, b) := pgInt64tostr ptr integralpart b
  pgInt64tostrZeropad (ptr + 1) fractionalpart scale (b.write ptr 46)

/-- `fixeddecimalout`: the string, and the buffer it was printed into. -/
def fixeddecimalout (val : Int) (b : Buffer) : List UInt8 × Buffer :=
  let (fin, b) := fixeddecimal2str val 10000 4 b
  (b.text 0 fin, b)

end Babelfish.Money
