import Babelfish.Common.SqlVariant
import Babelfish.Lib.Wrap

/-!
# The metadata of a `sql_variant`

Behind the type code the header of a `sql_variant` has a type modifier of one byte or two, or none;
the value follows.  `TdsSetMetaData` writes the header of the type, `TdsGetMetaData` reads two bytes
for every type.

* `tdsGetMetaData_iff`: when it reads what was written.
-/

namespace Babelfish.Common

open Lib TypeCode

/-- What is told about a value besides its type. -/
inductive VariantMetaData where
  | scale (scale : Int)
  | numeric (scale precision : Int)
  | maxLen (maxLen : Int)
  | none
deriving DecidableEq, Repr

/-- `SV_SET_METADATA` with `HDR_VER` -/
def TypeCode.metadata (type : TypeCode) : UInt8 := UInt8.ofNat (type.code * 8 + 1)

variable (type : TypeCode) (scale precision maxLen : Nat)

/-- `TdsSetMetaData`, on the bytes from the header on. -/
def tdsSetMetaData (result : List UInt8) : List UInt8 :=
  overwrite result 0 (type.metadata :: match type with
    | time | datetime2 | datetimeoffset => leBytes 1 scale
    | numeric => leBytes 2 (precision * 256 + scale)
    | binary | varbinary | char | nchar | varchar | nvarchar => leBytes 2 maxLen
    | _ => [])

/-- The `typmod` of a `svhdr_5B_t` -/
def typmod (result : List UInt8) : Int := wrap 16 (leNat (slice result 1 3))

def tdsGetMetaData (result : List UInt8) : VariantMetaData :=
  match type with
  | time | datetime2 | datetimeoffset => .scale (typmod result)
  | numeric => .numeric (typmod result % 256) (typmod result / 256 % 256)
  | binary | varbinary | char | nchar | varchar | nvarchar => .maxLen (typmod result)
  | _ => .none

def TypeCode.metaData : VariantMetaData :=
  match type with
  | time | datetime2 | datetimeoffset => .scale scale
  | numeric => .numeric scale precision
  | binary | varbinary | char | nchar | varchar | nvarchar => .maxLen maxLen
  | _ => .none

/-- The type admits the values. -/
def TypeCode.Admits : Prop :=
  match type with
  | time | datetime2 | datetimeoffset => scale ≤ 7
  | numeric => scale ≤ precision ∧ precision ≤ 38
  | binary | varbinary | char | nchar | varchar | nvarchar => maxLen ≤ 8000
  | _ => True

theorem typmod_word (metadata : UInt8) {n : Nat} (hn : n < 2 ^ 15) {result : List UInt8}
    (h : 3 ≤ result.length) : typmod (overwrite result 0 (metadata :: leBytes 2 n)) = n := by
  match result, h with
  | a :: b :: c :: rest, _ =>
    have hslice : slice (overwrite (a :: b :: c :: rest) 0 (metadata :: leBytes 2 n)) 1 3 =
        leBytes 2 n := rfl
    rw [typmod, hslice, leNat_leBytes, Nat.mod_eq_of_lt (by omega)]
    exact wrap_eq_self (by decide) ⟨by omega, by omega⟩

/-- Behind a header of two bytes the first byte of the value is read. -/
theorem typmod_byte_iff (metadata : UInt8) {n : Nat} (hn : n ≤ 7) {header : List UInt8}
    (h : header.length = 2) (payload : List UInt8) :
    typmod (overwrite (header ++ payload) 0 (metadata :: leBytes 1 n)) = n ↔
      payload.headD 0 = 0 := by
  obtain ⟨a, b, rfl⟩ := List.length_eq_two.mp h
  have hslice : slice (overwrite ([a, b] ++ payload) 0 (metadata :: leBytes 1 n)) 1 3 =
      leBytes 1 n ++ payload.take 1 := rfl
  rw [typmod, hslice, leNat_append, leNat_leBytes, length_leBytes, Nat.mod_eq_of_lt (by omega),
    wrap, Int.bmod_def, ← UInt8.toNat_inj]
  cases payload with
  | nil => simp [leNat]; omega
  | cons c rest =>
    have hc : c.toNat < 256 := c.toNat_lt
    simp only [List.take_succ_cons, List.take_zero, leNat, List.headD_cons, UInt8.toNat_zero]
    omega

/-- **When the metadata is read as it was set**: for `time`, `datetime2` and `datetimeoffset` only
if the value starts with a byte 0. -/
theorem tdsGetMetaData_iff (h : type.Admits scale precision maxLen) {header : List UInt8}
    (hheader : header.length = type.svhdrSize) (payload : List UInt8) :
    tdsGetMetaData type (tdsSetMetaData type scale precision maxLen (header ++ payload)) =
        type.metaData scale precision maxLen ↔
      (type ∈ [time, datetime2, datetimeoffset] → payload.headD 0 = 0) := by
  have hlength : header.length ≤ (header ++ payload).length := by simp
  rw [hheader] at hlength
  cases type with
  | time | datetime2 | datetimeoffset =>
    simp only [tdsGetMetaData, tdsSetMetaData, TypeCode.metaData, VariantMetaData.scale.injEq]
    rw [typmod_byte_iff _ h hheader]
    simp
  | numeric =>
    obtain ⟨hscale, hprecision⟩ := h
    have hword := typmod_word numeric.metadata
      (show precision * 256 + scale < 2 ^ 15 by omega) hlength
    simp only [tdsGetMetaData, tdsSetMetaData, TypeCode.metaData, hword,
      VariantMetaData.numeric.injEq]
    simp
    omega
  | binary | varbinary | char | nchar | varchar | nvarchar =>
    have hlen : maxLen < 2 ^ 15 := Nat.lt_of_le_of_lt h (by decide)
    have hlong : 3 ≤ (header ++ payload).length := Nat.le_trans (by decide) hlength
    simp [tdsGetMetaData, tdsSetMetaData, TypeCode.metaData, typmod_word _ hlen hlong]
  | _ => simp [tdsGetMetaData, TypeCode.metaData]

/-- 16 seconds, whose first byte is 0. -/
theorem tdsGetMetaData_seconds :
    tdsGetMetaData .time (tdsSetMetaData .time 3 0 0 [0, 0, 0x00, 0x24, 0xF4, 0, 0, 0, 0, 0]) =
      .scale 3 :=
  (tdsGetMetaData_iff .time 3 0 0 (show 3 ≤ 7 by decide) (show [0, 0].length = 2 from rfl)
    [0x00, 0x24, 0xF4, 0, 0, 0, 0, 0]).mpr (by decide)

/-- A millisecond: the first byte of the value is taken for the high byte of the scale. -/
theorem scale_of_value :
    tdsGetMetaData .time (tdsSetMetaData .time 3 0 0 [0, 0, 0xE8, 0x03, 0, 0, 0, 0, 0, 0]) =
      .scale (-6141) := by
  decide +kernel

end Babelfish.Common
