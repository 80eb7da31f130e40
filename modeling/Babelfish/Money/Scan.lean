import Babelfish.Lib.Decimal
import Babelfish.Lib.Wrap

/-!
# Reading an amount of money

`scanfixeddecimal` reads an amount: spaces, a sign and a currency symbol in either order, digits
with commas among them, a decimal point and more digits.  The digits before the point are
accumulated in 64 bits with a check in every round; the product with 10000 is only checked by its
sign.

The text is a list of bytes, and the byte at its end is 0.  The loops over digits skip the commas
before the first digit and after each one, so a comma is a round of the loop that does nothing.
-/

namespace Babelfish.Money

open Lib

/-- The errors of the scan, with the text. -/
inductive ScanError where
  | invalidCharacters (str : List UInt8)
  | outOfRange (str : List UInt8)
deriving DecidableEq, Repr

/-- The texts of the errors, around the text that was scanned. -/
def ScanError.message : ScanError → String × List UInt8 × String
  | invalidCharacters str => ("invalid characters found: cannot cast value \"", str, "\" to money")
  | outOfRange str => ("value \"", str, "\" is out of range for type fixeddecimal")

/-! ### Spaces, signs and symbols -/

def isSpace (c : UInt8) : Bool := c = 32 || (9 ≤ c.toNat && c.toNat ≤ 13)

def skipMoneySpaces : List UInt8 → List UInt8
  | [] => []
  | [c] => if isSpace c || c = 0xA0 then [] else [c]
  | c :: d :: rest =>
    if isSpace c || c = 0xA0 then skipMoneySpaces (d :: rest)
    else if c = 0xC2 && d = 0xA0 then skipMoneySpaces rest
    else c :: d :: rest

/-- The check for a non-breaking space among the first `n` bytes. -/
def hasNbsp : Nat → List UInt8 → Bool
  | n + 1, c :: rest =>
    c = 0xA0 || (c = 0xC2 && rest.headD 0 = 0xA0) || hasNbsp n rest
  | _, _ => false

def validCurrencySymbols : List (List UInt8) := [
  [0x24],
  [0xC2, 0xA2],
  [0xC2, 0xA4],
  [0xC2, 0xA3],
  [0xC2, 0xA5],
  [0xE0, 0xA7, 0xB2],
  [0xE0, 0xA7, 0xB3],
  [0xE0, 0xB8, 0xBF],
  [0xE1, 0x9F, 0x9B],
  [0xE2, 0x82, 0xA0],
  [0xE2, 0x82, 0xA1],
  [0xE2, 0x82, 0xA2],
  [0xE2, 0x82, 0xA3],
  [0xE2, 0x82, 0xA4],
  [0xE2, 0x82, 0xA5],
  [0xE2, 0x82, 0xA6],
  [0xE2, 0x82, 0xA7],
  [0xE2, 0x82, 0xA8],
  [0xE2, 0x82, 0xA9],
  [0xE2, 0x82, 0xAA],
  [0xE2, 0x82, 0xAB],
  [0xE2, 0x82, 0xAC],
  [0xE2, 0x82, 0xAD],
  [0xE2, 0x82, 0xAE],
  [0xE2, 0x82, 0xAF],
  [0xE2, 0x82, 0xB0],
  [0xE2, 0x82, 0xB1],
  [0xEF, 0xB7, 0xBC],
  [0xEF, 0xB9, 0xA9],
  [0xEF, 0xBC, 0x84],
  [0xEF, 0xBF, 0xA0],
  [0xEF, 0xBF, 0xA1],
  [0xEF, 0xBF, 0xA5],
  [0xEF, 0xBF, 0xA6]]

/-- `is_valid_currency_symbol`: the length of the symbol at the head of the text, or 0. -/
def isValidCurrencySymbol (ptr : List UInt8) : Nat :=
  match validCurrencySymbols.find? (fun symbol => symbol.isPrefixOf ptr) with
  | some symbol => symbol.length
  | none => 0

/-- The sign in front: `negative`, `has_seen_sign` and the rest. -/
def firstSign : List UInt8 → Bool × Bool × List UInt8
  | 45 :: ptr => (true, true, ptr)
  | 43 :: ptr => (false, true, ptr)
  | ptr => (false, false, ptr)

/-- The currency symbol, or a backslash in its place. -/
def skipCurrency (ptr : List UInt8) : List UInt8 :=
  let currencySymbolLen := isValidCurrencySymbol ptr
  if currencySymbolLen > 0 then ptr.drop currencySymbolLen
  else match ptr with
    | 92 :: rest => rest
    | _ => ptr

/-- The bytes that may follow the symbol. -/
def mayFollowSymbol (c : UInt8) : Bool :=
  isDigit c || c = 46 || c = 45 || c = 44 || c = 43 || c = 0

variable (str : List UInt8)

/-- The sign behind the symbol: `negative` and the rest. -/
def secondSign (negative hasSeenSign : Bool) :
    List UInt8 → Except ScanError (Bool × List UInt8)
  | 45 :: ptr => if hasSeenSign then .error (.invalidCharacters str) else .ok (true, ptr)
  | 43 :: ptr =>
    if hasSeenSign then .error (.invalidCharacters str)
    else .ok (if hasSeenSign then negative else false, ptr)
  | ptr => .ok (if hasSeenSign then negative else false, ptr)

/-! ### Digits -/

/-- The loop over the digits before the point: `integralpart`, `vprecision` and the rest. -/
def integralLoop (str : List UInt8) (negative : Bool) :
    Int → Nat → List UInt8 → Except ScanError (Int × Nat × List UInt8)
  | integralpart, vprecision, [] => .ok (integralpart, vprecision, [])
  | integralpart, vprecision, c :: ptr =>
    if c = 44 then integralLoop str negative integralpart vprecision ptr
    else if isDigit c then
      let digit : Int := c.toNat - 48
      let tmp := wrap 64 (if negative then integralpart * 10 - digit else integralpart * 10 + digit)
      if tmp.tdiv 10 ≠ integralpart then .error (.outOfRange str)
      else integralLoop str negative tmp (vprecision + 1) ptr
    else .ok (integralpart, vprecision, c :: ptr)

/-- The loop over the digits behind the point that are kept: `fractionalpart`, `vscale` and the
rest. -/
def fractionLoop : Nat → Nat → Nat → List UInt8 → Nat × Nat × List UInt8
  | _, fractionalpart, vscale, [] => (fractionalpart, vscale, [])
  | multiplier, fractionalpart, vscale, c :: ptr =>
    if c = 44 then fractionLoop multiplier fractionalpart vscale ptr
    else if isDigit c && multiplier > 1 then
      fractionLoop (multiplier / 10) (fractionalpart + (c.toNat - 48) * (multiplier / 10))
        (vscale + 1) ptr
    else (fractionalpart, vscale, c :: ptr)

/-- The first digit too many rounds. -/
def roundDigit : Nat × Nat × List UInt8 → Nat × Nat × List UInt8
  | (fractionalpart, vscale, c :: ptr) =>
    if isDigit c && 53 ≤ c.toNat then (fractionalpart + 1, vscale + 1, ptr)
    else (fractionalpart, vscale, c :: ptr)
  | (fractionalpart, vscale, []) => (fractionalpart, vscale, [])

def skipDigits : Nat → List UInt8 → Nat × List UInt8
  | vscale, [] => (vscale, [])
  | vscale, c :: ptr =>
    if c = 44 then skipDigits vscale ptr
    else if isDigit c then skipDigits (vscale + 1) ptr
    else (vscale, c :: ptr)

/-- The part behind the decimal point: `fractionalpart`, `vscale` and the rest. -/
def fraction : List UInt8 → Nat × Nat × List UInt8
  | 46 :: ptr =>
    let (fractionalpart, vscale, ptr) := roundDigit (fractionLoop 10000 0 0 ptr)
    let (vscale, ptr) := skipDigits vscale ptr
    (fractionalpart, vscale, ptr)
  | ptr => (0, 0, ptr)

/-! ### The amount -/

def samesign (a b : Int) : Bool := decide (a < 0) == decide (b < 0)

/-- The amount from its two parts, without `HAVE_BUILTIN_OVERFLOW`. -/
def combine (negative : Bool) (integralpart : Int) (fractionalpart : Nat) :
    Except ScanError Int :=
  let value := wrap 64 (integralpart * 10000)
  if negative then
    if value ≠ 0 && (!samesign value integralpart ||
        !samesign (wrap 64 (value - fractionalpart)) value ||
        !samesign (wrap 64 (value - fractionalpart)) value) then
      .error (.outOfRange str)
    else .ok (wrap 64 (value - fractionalpart))
  else
    if value ≠ 0 && (!samesign value integralpart ||
        !samesign (wrap 64 (value - fractionalpart)) value ||
        !samesign (wrap 64 (value + fractionalpart)) value) then
      .error (.outOfRange str)
    else .ok (wrap 64 (value + fractionalpart))

/-- From the digits on: the amount, `precision` and `scale`. -/
def scanDigits (negative : Bool) (ptr : List UInt8) :
    Except ScanError (Int × Nat × Nat) := do
  let (integralpart, vprecision, ptr) ← integralLoop str negative 0 0 (skipMoneySpaces ptr)
  let (fractionalpart, vscale, ptr) := fraction ptr
  if skipMoneySpaces ptr ≠ [] then .error (.outOfRange str)
  else
    let value ← combine str negative integralpart fractionalpart
    return (value, vprecision, vscale)

/-- From the first sign on. -/
def scanSigned (str ptr : List UInt8) : Except ScanError (Int × Nat × Nat) :=
  let (negative, hasSeenSign, ptr) := firstSign ptr
  let ptr := skipMoneySpaces (skipCurrency (skipMoneySpaces ptr))
  if !mayFollowSymbol (ptr.headD 0) then .error (.invalidCharacters str)
  else do
    let (negative, ptr) ← secondSign str negative hasSeenSign ptr
    scanDigits str negative ptr

/-- `scanfixeddecimal`: the amount, `precision` and `scale`. -/
def scanfixeddecimal : Except ScanError (Int × Nat × Nat) :=
  let ptr := skipMoneySpaces str
  if ptr ≠ [] && hasNbsp (str.length - ptr.length) str then .error (.invalidCharacters str)
  else scanSigned str ptr

end Babelfish.Money
