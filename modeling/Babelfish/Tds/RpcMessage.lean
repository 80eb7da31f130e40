import Mathlib
import Babelfish.Lib.Bytes
import Babelfish.Lib.Triple

/-!
# Reading an RPC message

The parser of `tdsrpc.c` walks over the bytes of a message with one offset.  A copy that is not
inside the message ends the process.

`int`, `uint32_t` and `uint64_t` are integers with the conversions of C written out; `char` is
signed.
-/

namespace Babelfish.Tds

open Lib

/-! ### Data types -/

/-- The data types of the protocol that a parameter can have. -/
inductive TdsType where
  | image | text | uniqueidentifier | integer | date | time | datetime2 | datetimeoffset
  | sqlvariant | ntext | bit | decimaln | numericn | float | moneyn | datetimen | varbinary
  | varchar | binary | char | nvarchar | nchar | clrudt | xml | table
deriving Repr, DecidableEq

/-! ### Numbers and texts -/

/-- `%02X` -/
def hex02 (b : UInt8) : String :=
  let digits := (Nat.toDigits 16 b.toNat).map Char.toUpper
  String.ofList (if digits.length < 2 then '0' :: digits else digits)

/-- The value of a `char`. -/
def signedChar (b : UInt8) : Int := if b.toNat < 128 then b.toNat else (b.toNat : Int) - 256

/-- The value of an `int` whose bits are those of the unsigned number. -/
def toInt32 (n : Nat) : Int := if n < 2 ^ 31 then n else (n : Int) - 2 ^ 32

/-- Conversion of an `int` to `uint32_t`. -/
def toUInt32 (i : Int) : Nat := (i % 2 ^ 32).toNat

/-- Conversion of an `int` to `uint64_t`. -/
def toUInt64 (i : Int) : Nat := (i % 2 ^ 64).toNat

/-! ### The message and the offset -/

structure Cursor where
  offset : Nat
deriving Repr, DecidableEq

/-- Why the parser stops: a copy that is not inside the message, or a loop that was cut off. -/
inductive RpcStop where
  | overrun
  | timeout
deriving Repr, DecidableEq

abbrev Parse (α : Type) := EStateM RpcStop Cursor α

section

variable (msg : List UInt8)

/-- `offset + size > message->len`, in 64 bits. -/
def exceeds (size : Nat) : Parse Bool := do
  let c ← get
  pure (decide (msg.length < (c.offset + size) % 2 ^ 64))

/-- `memcpy` of `len` bytes from the given offset. -/
def copyAt (offset : Nat) (len : Int) : Parse (List UInt8) :=
  if 0 ≤ len ∧ offset + len ≤ msg.length then pure (slice msg offset (offset + len.toNat))
  else throw .overrun

end

def advance (n : Int) : Parse Unit := modify fun c => { c with offset := toUInt64 (c.offset + n) }

/-- Copy a field and step over it. -/
def fetch (msg : List UInt8) (n : Nat) : Parse (List UInt8) := do
  let c ← get
  let bytes ← copyAt msg c.offset n
  advance n
  pure bytes

/-! ### PLP values -/

def plpNull : Nat := 0xFFFFFFFFFFFFFFFF

def plpUnknownLen : Nat := 0xFFFFFFFFFFFFFFFE

def plpTerminator : Nat := 0

structure PlpData where
  offset : Nat
  len : Nat
deriving Repr, DecidableEq

/-- What `ReadPlp` leaves in the token. -/
structure PlpValue where
  isNull : Bool
  plp : List PlpData
deriving Repr, DecidableEq

section

variable (msg : List UInt8)

/-- The loop of `ReadPlp`; `none` is `STATUS_ERROR`. -/
def readPlpChunks : Nat → Parse (Option (List PlpData))
  | 0 => throw .timeout
  | fuel + 1 => do
    if ← exceeds msg 4 then pure none
    else
      let tempLen := leNat (← fetch msg 4)
      if tempLen = plpTerminator then pure (some [])
      else
        let c ← get
        if ← exceeds msg tempLen then pure none
        else
          advance tempLen
          let rest ← readPlpChunks fuel
          pure (rest.map (⟨c.offset, tempLen⟩ :: ·))

/-- `ReadPlp`; `none` is `STATUS_ERROR`, after which all callers raise an error. -/
def readPlp (fuel : Nat) : Parse (Option PlpValue) := do
  if ← exceeds msg 8 then pure none
  else
    let plpTok := leNat (← fetch msg 8)
    if plpTok = plpNull then pure (some ⟨true, []⟩)
    else
      match ← readPlpChunks msg fuel with
      | none => pure none
      | some plp =>
        let lenCheck := (plp.map PlpData.len).sum % 2 ^ 64
        if plpTok ≠ plpUnknownLen ∧ lenCheck ≠ plpTok then pure none
        else pure (some ⟨false, plp⟩)

def tdsGetPlpStringInfoBufferFromToken : List PlpData → Parse (List UInt8)
  | [] => pure []
  | c :: cs => do
    let bytes ← copyAt msg c.offset c.len
    let rest ← tdsGetPlpStringInfoBufferFromToken cs
    pure (bytes ++ rest)

end

end Babelfish.Tds
