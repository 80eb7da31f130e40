import Babelfish.Lib.Bytes
import Babelfish.Lib.Decimal

/-!
# Numeric values on the wire

A numeric value goes out as a sign and a magnitude, the value multiplied by a power of ten that both
sides know from the type.  Both directions go through decimal text: `TdsSendTypeNumeric` takes the
digits out of what `numeric_out` printed, and `TdsRecvTypeNumeric` prints the magnitude into a
buffer of 40 bytes, moves the decimal point into place and hands the C string to the parser of
PostgreSQL.

What lies in memory behind the buffer is a parameter: a string that fills the buffer has no
terminator in it.
-/

namespace Babelfish.Tds

open Lib

/-- A numeric value: the number, and how many fractional digits it is displayed with. -/
structure Numeric where
  value : ℚ
  dscale : Nat
deriving Repr, DecidableEq

inductive NumericError where
  | overflow
  | dataLength (len : Nat)
  | invalidInput (text : List UInt8)
  | formatOverflow
deriving Repr, DecidableEq

def NumericError.message : NumericError → String
  | .overflow => "Arithmetic overflow error for data type numeric."
  | .dataLength len =>
      "Data length " ++ toString len ++ " is invalid for NUMERIC/DECIMAL data types."
  | .invalidInput text => "invalid input syntax for type numeric: \"" ++
      String.ofList (text.map fun c => Char.ofNat c.toNat) ++ "\""
  | .formatOverflow => "value overflows numeric format"

/-! ### Sending -/

def pointByte : UInt8 := 46

def minusByte : UInt8 := 45

/-- The loop that takes the digits out of the text, up to `max_scale` digits behind the point. -/
def scanDigits (maxScale : Int) : List UInt8 → List UInt8 → Int → List UInt8 × Int
  | [], decString, scale => (decString, scale)
  | c :: out, decString, scale =>
    if scale < maxScale then
      if c = pointByte then scanDigits maxScale out decString 0
      else scanDigits maxScale out (decString ++ [c]) (if 0 ≤ scale then scale + 1 else scale)
    else (decString, scale)

variable (str : List UInt8)

/-- `StringToInteger`, in 128 bits. -/
def stringToInteger : Nat :=
  str.foldl (fun num c => (num * 10 + (c.toNat - 48)) % 2 ^ 128) 0

def numericLength (precision : Nat) : Nat :=
  if 1 ≤ precision ∧ precision < 10 then 4
  else if precision < 20 then 8
  else if precision < 29 then 12
  else if precision < 39 then 16
  else 0

def tdsMaxNumPrecision : Nat := 38

/-- `TdsSendTypeNumeric`, from the text that `numeric_out` printed. -/
def tdsSendTypeNumeric (maxPrecision maxScale : Nat) (out : List UInt8) :
    Except NumericError (List UInt8) :=
  let sign : UInt8 := if out.head? = some minusByte then 0 else 1
  let out := if out.head? = some minusByte then out.drop 1 else out
  let out := if out.head? = some (digitByte 0) then out.drop 1 else out
  let (decString, scale) := scanDigits maxScale out [] (-1)
  let scale := if scale = -1 then 0 else scale
  let targetPrecision := (decString.length : Int) + (maxScale - scale)
  if (tdsMaxNumPrecision : Int) < targetPrecision ∨ (maxPrecision : Int) < targetPrecision then
    .error .overflow
  else
    let decString := decString ++ List.replicate (maxScale - scale).toNat (digitByte 0)
    let length := numericLength decString.length
    .ok (UInt8.ofNat (length + 1) :: sign :: leBytes length (stringToInteger decString))

/-! ### C strings -/

/-- The string that starts at the beginning of the memory; behind the memory there is a 0. -/
def cString (mem : List UInt8) : List UInt8 := mem.takeWhile (· ≠ 0)

def reverseString (mem : List UInt8) : List UInt8 :=
  (cString mem).reverse ++ mem.drop (cString mem).length

/-- The loop of `Integer2String`: the digits, lowest first.  A `uint128` has at most 39. -/
def putDigits : Nat → Nat → Nat → List UInt8 → List UInt8 × Nat
  | 0, _, i, str => (str, i)
  | fuel + 1, num, i, str =>
    if num = 0 then (str, i)
    else putDigits fuel (num / 10) (i + 1) (str.set i (digitByte (num % 10)))

def integer2String (num : Nat) (str : List UInt8) : List UInt8 :=
  let (str, i) := putDigits 39 num 0 str
  reverseString (str.set i minusByte)

/-! ### The parser of PostgreSQL -/

/-- The digits and the point: the coefficient, `dscale` and what follows. -/
def scanNumber (str : List UInt8) : List UInt8 → Bool → Nat → Nat →
    Except NumericError (Nat × Nat × List UInt8)
  | [], _, coefficient, dscale => .ok (coefficient, dscale, [])
  | c :: cp, haveDp, coefficient, dscale =>
    if isDigit c then
      scanNumber str cp haveDp (coefficient * 10 + (c.toNat - 48))
        (if haveDp then dscale + 1 else dscale)
    else if c = pointByte then
      if haveDp then .error (.invalidInput str) else scanNumber str cp true coefficient dscale
    else .ok (coefficient, dscale, c :: cp)

/-- `strtol` in base 10; `none` when there are no digits. -/
def strtol (cp : List UInt8) : Option Int :=
  let cp := cp.dropWhile fun c => c = 32 || (9 ≤ c && c ≤ 13)
  let negative := cp.head? = some minusByte
  let cp := if negative ∨ cp.head? = some 43 then cp.drop 1 else cp
  let digits := cp.takeWhile isDigit
  let n : Int := digits.foldl (fun n c => n * 10 + ((c.toNat - 48 : Nat) : Int)) 0
  if digits.isEmpty then none else some (if negative then -n else n)

/-- The value with the exponent that may follow the digits. -/
def applyExponent (negative : Bool) (coefficient dscale : Nat) :
    List UInt8 → Except NumericError Numeric
  | c :: cp =>
    if c = 101 ∨ c = 69 then
      match strtol cp with
      | none => .error (.invalidInput str)
      | some exponent =>
        if 2 ^ 30 - 1 ≤ exponent ∨ exponent ≤ -(2 ^ 30 - 1) then .error .formatOverflow
        else
          .ok ⟨signed (coefficient * 10 ^ exponent.toNat / 10 ^ (dscale + (-exponent).toNat)),
            (dscale - exponent).toNat⟩
    else .ok ⟨signed (coefficient / 10 ^ dscale), dscale⟩
  | [] => .ok ⟨signed (coefficient / 10 ^ dscale), dscale⟩
where
  signed (value : ℚ) : ℚ := if negative then -value else value

/-- The number behind the sign: there is a digit, with a point in front of it at most. -/
def unsignedFromStr (negative : Bool) (cp : List UInt8) :
    Except NumericError Numeric := do
  let haveDp := cp.head? = some pointByte
  let cp := if haveDp then cp.drop 1 else cp
  if isDigit (cp.headD 0) then
    let (coefficient, dscale, rest) ← scanNumber str cp haveDp 0 0
    applyExponent str negative coefficient dscale rest
  else .error (.invalidInput str)

def setVarFromStr : Except NumericError Numeric :=
  let negative := str.head? = some minusByte
  let cp := if negative ∨ str.head? = some 43 then str.drop 1 else str
  unsignedFromStr str negative cp

/-! ### Receiving -/

/-- The loop that moves the point in front of the last `scale` characters, and the character that
falls out at the end. -/
def shiftPoint (len : Nat) : Nat → UInt8 → List UInt8 → List UInt8 × UInt8
  | 0, temp1, decString => (decString, temp1)
  | scale + 1, temp1, decString =>
    shiftPoint len scale (decString.getD (len - (scale + 1)) 0)
      (decString.set (len - (scale + 1)) temp1)

/-- The loop that appends `scale` zeroes. -/
def appendZeros : Nat → Nat → List UInt8 → List UInt8
  | 0, _, decString => decString
  | scale + 1, len, decString => appendZeros scale (len + 1) (decString.set len (digitByte 0))

/-- The magnitude as text in the buffer, with the point in its place. -/
def magnitudeText (num scale : Nat) (behind : List UInt8) : List UInt8 :=
  let buffer := List.replicate 40 0 ++ behind
  if num = 0 then
    appendZeros scale 2 ((buffer.set 0 (digitByte 0)).set 1 pointByte)
  else
    let decString := integer2String num buffer
    let len := (cString decString).length
    if len ≤ scale then
      -- a new string, with zeroes behind the minus sign
      let decString := minusByte :: (List.replicate (scale - len + 1) (digitByte 0) ++
        ((cString decString).drop 1 ++ [pointByte, 0]))
      insertPoint scale ((cString decString).length - 1) decString
    else insertPoint scale len decString
where
  insertPoint (scale len : Nat) (decString : List UInt8) : List UInt8 :=
    let (decString, temp1) := shiftPoint len scale pointByte decString
    decString.set len temp1

/-- `TdsRecvTypeNumeric`, on the bytes of the value and with the bytes behind the buffer. -/
def tdsRecvTypeNumeric (scale : Nat) (data behind : List UInt8) : Except NumericError Numeric :=
  let sign := data.headD 0
  if 16 < data.length - 1 then .error (.dataLength data.length)
  else
    let num := leNat (data.drop 1)
    let decString := magnitudeText num scale behind
    setVarFromStr (cString (if sign = 1 ∧ num ≠ 0 then decString.drop 1 else decString))

end Babelfish.Tds
