import Babelfish.Lib.Bytes
import Babelfish.Lib.ImageHash

/-!
# `datetimeoffset`

A `datetimeoffset` is a timestamp with the offset of a time zone in minutes.  The comparison
functions take the instant that both of them make up together; the hash is taken over the bytes of
both, so that it tells two representations of one instant apart.  A timestamp with time zone becomes
the local time with the offset of the session's zone.

* `datetimeoffsetEq_iff`: the equality is that of the instants.
* `hashImage_inj`: the hashed bytes determine the value.
* `datetimeoffset_hash_iff`: for which pairs the hash agrees with the equality.
* `timestamptz_datetimeoffset_iff`: when the conversion keeps the instant and the offset.
-/

namespace Babelfish.Common

open Lib

structure TsqlDatetimeoffset where
  tsql_ts : Int64
  tsql_tz : Int16
deriving DecidableEq, Repr

namespace TsqlDatetimeoffset

/-! ### The comparison functions -/

/-- `datetimeoffset_timestamp_internal`, in wrapping 64-bit arithmetic. -/
def timestampInternal (df : TsqlDatetimeoffset) : Int64 :=
  df.tsql_ts + df.tsql_tz.toInt64 * 60 * 1000000

variable (df1 df2 : TsqlDatetimeoffset)

def cmpInternal : Int :=
  let t1 := df1.timestampInternal
  let t2 := df2.timestampInternal
  if t1 < t2 then -1 else if t1 > t2 then 1 else 0

def datetimeoffsetEq : Bool := cmpInternal df1 df2 = 0

/-! ### The hash -/

/-- The `DATETIMEOFFSET_LEN` bytes of the zeroed copy: the timestamp, the offset and the padding. -/
def hashImage (df : TsqlDatetimeoffset) : List UInt8 :=
  leBytes 8 df.tsql_ts.toUInt64.toNat ++ leBytes 2 df.tsql_tz.toUInt16.toNat ++
    List.replicate 6 0

/-- `datetimeoffset_hash`.  `hash_any` is a function of PostgreSQL. -/
def datetimeoffsetHash (hash_any : List UInt8 → UInt32) (df : TsqlDatetimeoffset) : UInt32 :=
  hash_any df.hashImage

/-! ### Equality is that of the instants -/

variable {df1 df2}

theorem datetimeoffsetEq_iff :
    datetimeoffsetEq df1 df2 = true ↔ df1.timestampInternal = df2.timestampInternal := by
  rw [datetimeoffsetEq, decide_eq_true_iff]
  simp only [cmpInternal, gt_iff_lt, Int64.lt_iff_toInt_lt, ← Int64.toInt_inj]
  split
  · omega
  · split <;> omega

theorem eq_of_timestampInternal (h : df1.timestampInternal = df2.timestampInternal)
    (htz : df1.tsql_tz = df2.tsql_tz) : df1 = df2 := by
  obtain ⟨ts1, tz1⟩ := df1
  obtain ⟨ts2, tz2⟩ := df2
  obtain rfl : tz1 = tz2 := htz
  obtain rfl : ts1 = ts2 := (Int64.add_left_inj _).mp h
  rfl

/-- **The hashed bytes determine the value.** -/
theorem hashImage_inj (h : df1.hashImage = df2.hashImage) : df1 = df2 := by
  obtain ⟨ts1, tz1⟩ := df1
  obtain ⟨ts2, tz2⟩ := df2
  obtain ⟨h, -⟩ := List.append_inj h (by simp)
  obtain ⟨hts', htz'⟩ := List.append_inj h (by simp)
  have hts : ts1.toUInt64.toNat = ts2.toUInt64.toNat :=
    leBytes_inj hts' ts1.toUInt64.toNat_lt ts2.toUInt64.toNat_lt
  have htz : tz1.toUInt16.toNat = tz2.toUInt16.toNat :=
    leBytes_inj htz' tz1.toUInt16.toNat_lt tz2.toUInt16.toNat_lt
  obtain rfl : ts1 = ts2 := congrArg Int64.ofUInt64 (UInt64.toNat.inj hts)
  obtain rfl : tz1 = tz2 := congrArg Int16.ofUInt16 (UInt16.toNat.inj htz)
  rfl

/-- **When the hash agrees with the equality**: whatever `hash_any` is, two values that are equal
have the same hash exactly when they have the same offset. -/
theorem datetimeoffset_hash_iff (a b : TsqlDatetimeoffset) :
    (∀ hash_any : List UInt8 → UInt32, datetimeoffsetEq a b = true →
      datetimeoffsetHash hash_any a = datetimeoffsetHash hash_any b) ↔
    (datetimeoffsetEq a b = true → a.tsql_tz = b.tsql_tz) := by
  have : Nontrivial UInt32 := ⟨0, 1, by decide⟩
  refine (hash_respects_iff hashImage _ a b).trans ?_
  constructor
  · intro h heq
    rw [hashImage_inj (h heq)]
  · intro h heq
    rw [eq_of_timestampInternal (datetimeoffsetEq_iff.mp heq) (h heq)]

/-- Noon at offset 0 and the same instant written one hour later. -/
theorem one_instant_two_hashes :
    datetimeoffsetEq ⟨43200000000, 0⟩ ⟨39600000000, 60⟩ = true ∧
      ∃ hash_any : List UInt8 → UInt32,
        datetimeoffsetHash hash_any ⟨43200000000, 0⟩ ≠
          datetimeoffsetHash hash_any ⟨39600000000, 60⟩ := by
  refine ⟨by decide +kernel, fun image => (image.getD 8 0).toUInt32, by decide +kernel⟩

/-! ### From a timestamp with time zone -/

def InRange (df : TsqlDatetimeoffset) : Prop :=
  -63082281600000000 ≤ df.timestampInternal ∧ df.timestampInternal < 252455616000000000

instance : DecidablePred InRange := fun _ => inferInstanceAs (Decidable (_ ∧ _))

/-- `CheckDatetimeoffsetRange` -/
def checkDatetimeoffsetRange (df : TsqlDatetimeoffset) : Except String TsqlDatetimeoffset :=
  if df.InRange then .ok df else .error "data out of range for datetimeoffset"

/-- `timestamp2tm` in the zone of the session, which also tells how many seconds that zone lies to
the west, and `tm2timestamp`; `none` stands for a result other than 0. -/
structure ZoneConversions (Tm : Type) where
  timestamp2tm : Int64 → Option (Tm × Int32)
  tm2timestamp : Tm → Option Int64

variable {Tm : Type} (zone : ZoneConversions Tm)

/-- `timestamptz_datetimeoffset`.  The seconds are cut to 16 bits before they are divided. -/
def timestamptzDatetimeoffset (timestamp : Int64) : Except String TsqlDatetimeoffset :=
  if timestamp = Int64.minValue ∨ timestamp = Int64.maxValue then
    checkDatetimeoffsetRange ⟨timestamp, 0⟩
  else
    match zone.timestamp2tm timestamp with
    | none => .error "data out of range for datetimeoffset"
    | some (tm, tz) =>
      match zone.tm2timestamp tm with
      | none => .error "data out of range for datetimeoffset"
      | some time => checkDatetimeoffsetRange ⟨time, tz.toInt16 / 60⟩

/-- The zone lies `tz` seconds to the west at a finite instant. -/
def ZoneConversions.West (timestamp : Int64) (tz : Int32) : Prop :=
  timestamp ≠ Int64.minValue → timestamp ≠ Int64.maxValue →
    ∃ tm, zone.timestamp2tm timestamp = some (tm, tz) ∧
      zone.tm2timestamp tm = some (timestamp - tz.toInt64 * 1000000)

theorem checkDatetimeoffsetRange_eq_ok {df r : TsqlDatetimeoffset} :
    checkDatetimeoffsetRange df = .ok r ↔ df.InRange ∧ df = r := by
  unfold checkDatetimeoffsetRange
  split <;> simp_all

theorem toInt_div_sixty (tz : Int16) : (tz / 60).toInt = tz.toInt.tdiv 60 :=
  Int16.toInt_div_of_ne_right tz 60 (by decide)

/-- The instant of a local time is the timestamp if the offset is that of the zone. -/
theorem timestampInternal_shifted (timestamp : Int64) {tz : Int32} {offset : Int16}
    (h : offset.toInt * 60 = tz.toInt) :
    timestampInternal ⟨timestamp - tz.toInt64 * 1000000, offset⟩ = timestamp := by
  have hseconds : offset.toInt64 * 60 = tz.toInt64 := by
    rw [← Int64.toInt_inj, Int64.toInt_mul, Int16.toInt_toInt64, Int32.toInt_toInt64]
    have hlow := tz.le_toInt
    have hhigh := tz.toInt_lt
    change (offset.toInt * 60).bmod (2 ^ 64) = _
    rw [h, Int.bmod_eq_of_le] <;> omega
  rw [timestampInternal, hseconds, Int64.sub_add_cancel]

/-- **When the conversion keeps the instant and the offset**, in a zone that lies whole minutes
away: exactly if the instant is in range and the seconds fit into 16 bits. -/
theorem timestamptz_datetimeoffset_iff (timestamp : Int64) (tz : Int32)
    (hwest : zone.West timestamp tz) (hminutes : 60 ∣ tz.toInt) :
    (∃ df, timestamptzDatetimeoffset zone timestamp = .ok df ∧
      df.timestampInternal = timestamp ∧ df.tsql_tz.toInt * 60 = tz.toInt) ↔
    (-63082281600000000 ≤ timestamp ∧ timestamp < 252455616000000000) ∧
      -32768 ≤ tz.toInt ∧ tz.toInt ≤ 32767 := by
  unfold timestamptzDatetimeoffset
  split_ifs with hinfinite
  · obtain rfl | rfl := hinfinite
    · exact iff_of_false (by rintro ⟨_, h, -⟩; cases h) (fun h => absurd h.1 (by decide))
    · exact iff_of_false (by rintro ⟨_, h, -⟩; cases h) (fun h => absurd h.1 (by decide))
  · rw [not_or] at hinfinite
    obtain ⟨tm, hfields, hlocal⟩ := hwest hinfinite.1 hinfinite.2
    simp only [hfields, hlocal, checkDatetimeoffsetRange_eq_ok]
    constructor
    · rintro ⟨_, ⟨hrange, rfl⟩, hinstant, hoffset⟩
      rw [InRange, hinstant] at hrange
      rw [toInt_div_sixty, Int.tdiv_eq_ediv] at hoffset
      have hlow := tz.toInt16.le_toInt
      have hhigh := tz.toInt16.toInt_lt
      exact ⟨hrange, by grind⟩
    · rintro ⟨hrange, hlow, hhigh⟩
      have hoffset : (tz.toInt16 / 60).toInt * 60 = tz.toInt := by
        rw [toInt_div_sixty, Int32.toInt_toInt16, Int.bmod_eq_of_le (by omega) (by omega),
          Int.tdiv_mul_cancel hminutes]
      have hinstant := timestampInternal_shifted timestamp hoffset
      exact ⟨_, ⟨by rwa [InRange, hinstant], rfl⟩, hinstant, hoffset⟩

/-- The conversions of a zone that always lies an hour to the west. -/
def hourWest : ZoneConversions Int64 := ⟨fun t => some (t - 3600000000, 3600), some⟩

theorem timestamptz_datetimeoffset_hour_west :
    ∃ df, timestamptzDatetimeoffset hourWest 0 = .ok df ∧
      df.timestampInternal = 0 ∧ df.tsql_tz.toInt * 60 = (3600 : Int32).toInt :=
  (timestamptz_datetimeoffset_iff hourWest 0 3600 (fun _ _ => ⟨_, rfl, rfl⟩) (by decide)).mpr
    (by decide)

/-- Ten hours to the east: the result has an offset of 492 minutes to the west, and another instant.
-/
theorem ten_hours_east_wrap :
    timestamptzDatetimeoffset ⟨fun t => some (t + 36000000000, -36000), some⟩ 0 =
      .ok ⟨36000000000, 492⟩ ∧ timestampInternal ⟨36000000000, 492⟩ ≠ 0 := by
  decide +kernel

end TsqlDatetimeoffset

end Babelfish.Common
