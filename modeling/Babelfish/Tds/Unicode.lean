import Babelfish.Lib.Bytes

/-!
# The conversions between UTF-16 and UTF-8

Strings come from a client as UTF-16LE and are kept as UTF-8.  `TdsUTF16toUTF8StringInfo` takes one
code point after the other out of the UTF-16 bytes and appends it as UTF-8, and
`TdsUTF8toUTF16StringInfo` goes the other way.  Both raise an error at the first sequence that they
do not take for a code point.

A mask is written as a quotient and a part of a byte as a remainder, so `(b & 0xE0) == 0xC0` is
`b / 32 = 6`, and `|` of parts that do not overlap is `+`.
-/

namespace Babelfish.Tds

inductive UnicodeError where
  | truncatedUTF8 (in0 : UInt8)
  | invalidUTF8 (in0 : UInt8)
  | invalidUTF8CodePoint (code : Nat)
  | codePointZero
  | highPart (in0 in1 : UInt8)
  | onlyTwoBytes (in0 in1 : UInt8)
  | lowPart (in2 in3 : UInt8)
  | invalidCodePoint (code : Nat)
  | oddNumberOfBytes
deriving Repr, DecidableEq

/-- `%x` -/
def hexText (n : Nat) : String := String.ofList (Nat.toDigits 16 n)

/-- `%02x` -/
def hexByte (b : UInt8) : String :=
  if b < 16 then "0" ++ hexText b.toNat else hexText b.toNat

def UnicodeError.message : UnicodeError → String
  | .truncatedUTF8 in0 => "truncated UTF8 byte sequence starting with 0x" ++ hexByte in0
  | .invalidUTF8 in0 => "invalid UTF8 byte sequence starting with 0x" ++ hexByte in0
  | .invalidUTF8CodePoint code => "invalid UTF8 code point 0x" ++ hexText code
  | .codePointZero => "invalid UTF16 byte sequence - code point 0 not supported"
  | .highPart in0 in1 => "invalid UTF16 byte sequence - high part is (0x" ++ hexByte in0 ++
      ", 0x" ++ hexByte in1 ++ ")"
  | .onlyTwoBytes in0 in1 => "invalid UTF16 byte sequence - only 2 bytes (0x" ++ hexByte in0 ++
      ", 0x" ++ hexByte in1 ++ ")"
  | .lowPart in2 in3 => "invalid UTF16 byte sequence - low part is (0x" ++ hexByte in2 ++
      ", 0x" ++ hexByte in3 ++ ")"
  | .invalidCodePoint code => "invalid Unicode code point 0x" ++ hexText code
  | .oddNumberOfBytes => "invalid UTF16 byte sequence - input data has odd number of bytes"

/-! ### One code point -/

/-- `(in[i] & 0xC0) == 0x80` -/
def continuation (b : UInt8) : Bool := b.toNat / 64 = 2

/-- The bits of the code point, and how many bytes hold them. -/
def utf8Bits (in0 : UInt8) (rest : List UInt8) : Except UnicodeError (Nat × Nat) :=
  if in0.toNat / 128 = 0 then .ok (in0.toNat, 1)
  else if in0.toNat / 32 = 6 then
    match rest with
    | in1 :: _ =>
      if continuation in1 then .ok (in0.toNat % 32 * 64 + in1.toNat % 64, 2)
      else .error (.invalidUTF8 in0)
    | _ => .error (.truncatedUTF8 in0)
  else if in0.toNat / 16 = 14 then
    match rest with
    | in1 :: in2 :: _ =>
      if continuation in1 && continuation in2 then
        .ok (in0.toNat % 16 * 4096 + in1.toNat % 64 * 64 + in2.toNat % 64, 3)
      else .error (.invalidUTF8 in0)
    | _ => .error (.truncatedUTF8 in0)
  else if in0.toNat / 8 = 30 then
    match rest with
    | in1 :: in2 :: in3 :: _ =>
      if continuation in1 && continuation in2 && continuation in3 then
        .ok (in0.toNat % 8 * 262144 + in1.toNat % 64 * 4096 + in2.toNat % 64 * 64 +
          in3.toNat % 64, 4)
      else .error (.invalidUTF8 in0)
    | _ => .error (.truncatedUTF8 in0)
  else .error (.invalidUTF8 in0)

/-- `GetUTF8CodePoint` on a string that is not empty: the code point and `consumed`. -/
def getUTF8CodePoint (in0 : UInt8) (rest : List UInt8) : Except UnicodeError (Nat × Nat) := do
  let (code, consumed) ← utf8Bits in0 rest
  if 0x10FFFF < code ∨ (0xD800 ≤ code ∧ code < 0xE000) then .error (.invalidUTF8CodePoint code)
  else .ok (code, consumed)

/-- `in[1] << 8 | in[0]` -/
def unit16 (in0 in1 : UInt8) : Nat := in1.toNat * 256 + in0.toNat

/-- `GetUTF16CodePoint`: the code point and `consumed`. -/
def getUTF16CodePoint (in0 in1 : UInt8) (rest : List UInt8) : Except UnicodeError (Nat × Nat) :=
  let code1 := unit16 in0 in1
  if code1 < 0xD800 ∨ 0xE000 ≤ code1 then
    if code1 = 0 then .error .codePointZero else .ok (code1, 2)
  else if 0xDC00 ≤ code1 then .error (.highPart in0 in1)
  else
    match rest with
    | in2 :: in3 :: _ =>
      let code2 := unit16 in2 in3
      if code2 < 0xDC00 ∨ 0xE000 < code2 then .error (.lowPart in2 in3)
      else .ok (code1 % 1024 * 1024 + code2 % 1024 + 0x10000, 4)
    | _ => .error (.onlyTwoBytes in0 in1)

/-- The check that both functions which append a code point make. -/
def badCodePoint (code : Nat) : Bool :=
  (0xD800 < code && code < 0xE000) || code < 1 || 0x10FFFF < code

def addUTF8ToStringInfo (code : Nat) : Except UnicodeError (List UInt8) :=
  if badCodePoint code then .error (.invalidCodePoint code)
  else if code ≤ 0x7F then .ok [UInt8.ofNat code]
  else if code ≤ 0x7FF then .ok [UInt8.ofNat (code / 64 + 0xC0), UInt8.ofNat (code % 64 + 0x80)]
  else if code ≤ 0xFFFF then
    .ok [UInt8.ofNat (code / 4096 + 0xE0), UInt8.ofNat (code / 64 % 64 + 0x80),
      UInt8.ofNat (code % 64 + 0x80)]
  else
    .ok [UInt8.ofNat (code / 262144 + 0xF0), UInt8.ofNat (code / 4096 % 64 + 0x80),
      UInt8.ofNat (code / 64 % 64 + 0x80), UInt8.ofNat (code % 64 + 0x80)]

def addUTF16ToStringInfo (code : Nat) : Except UnicodeError (List UInt8) :=
  if badCodePoint code then .error (.invalidCodePoint code)
  else if code ≤ 0xFFFF then .ok [UInt8.ofNat (code % 256), UInt8.ofNat (code / 256 % 256)]
  else
    let high := 0xD800 + (code - 0x10000) / 1024 % 1024
    let low := 0xDC00 + (code - 0x10000) % 1024
    .ok [UInt8.ofNat high, UInt8.ofNat (high / 256), UInt8.ofNat low, UInt8.ofNat (low / 256)]

/-! ### Strings -/

/-- The loop of `TdsUTF16toUTF8StringInfo`.  Every round consumes two bytes at least. -/
def utf16Loop : Nat → List UInt8 → Except UnicodeError (List UInt8)
  | fuel + 1, in0 :: in1 :: rest => do
    let (code, consumed) ← getUTF16CodePoint in0 in1 rest
    let out ← addUTF8ToStringInfo code
    let more ← utf16Loop fuel (rest.drop (consumed - 2))
    return out ++ more
  | _, _ => return []

/-- `TdsUTF16toUTF8StringInfo`: what is appended to `out`. -/
def tdsUTF16toUTF8StringInfo (vin : List UInt8) : Except UnicodeError (List UInt8) :=
  if vin.length % 2 ≠ 0 then .error .oddNumberOfBytes else utf16Loop vin.length vin

/-- The loop of `TdsUTF8toUTF16StringInfo`.  Every round consumes a byte at least. -/
def utf8Loop : Nat → List UInt8 → Except UnicodeError (List UInt8)
  | fuel + 1, in0 :: rest => do
    let (code, consumed) ← getUTF8CodePoint in0 rest
    let out ← addUTF16ToStringInfo code
    let more ← utf8Loop fuel (rest.drop (consumed - 1))
    return out ++ more
  | _, _ => return []

/-- `TdsUTF8toUTF16StringInfo`: what is appended to `out`. -/
def tdsUTF8toUTF16StringInfo (vin : List UInt8) : Except UnicodeError (List UInt8) :=
  utf8Loop vin.length vin

/-- The loop of `TdsUTF8LengthInUTF16`. -/
def lengthLoop : Nat → List UInt8 → Except UnicodeError Nat
  | fuel + 1, in0 :: rest => do
    let (code, consumed) ← getUTF8CodePoint in0 rest
    if badCodePoint code then .error (.invalidCodePoint code)
    let more ← lengthLoop fuel (rest.drop (consumed - 1))
    return (if code ≤ 0xFFFF then 1 else 2) + more
  | _, _ => return 0

def tdsUTF8LengthInUTF16 (vin : List UInt8) : Except UnicodeError Nat := lengthLoop vin.length vin

end Babelfish.Tds
