import Babelfish.Common.Timestamp
import Babelfish.Lib.Bytes
import Babelfish.Lib.Except
import Babelfish.Lib.Wrap

/-!
# `datetime` as `varbinary`

A `datetime` becomes eight bytes: the days since the start of 1900, which are negative before it,
and the time of the day in three hundredths of a second, both in network byte order.  Reading it
back computes milliseconds from the time, which are rounded to the ones that a `datetime` can have.

* `roundoffDatetime_eq`: what the rounding gives when nothing is carried.
* `datetimeVarbinary_eq`: the eight bytes.
* `timePart_append`, `dayPart_append`: the numbers that are read from eight bytes.
* `varbinaryDatetime_datetimeVarbinary`: the bytes are read back.
-/

namespace Babelfish.Common

open Lib

/-! ### The constants -/

def usecsPerDay : Int := 86400000000

def varhdrsz : Int := 4

def minDateMask : Int := 0xFFFF2E46

def minDatetime : Int := -7794489600000000

def endDatetime : Int := 252455615999999000

def tsqlDefaultDatetime : Int := -3155673600000000

def datepartMinValue : Int := -53690

inductive DatetimeError where
  | implicitConversion
  | datetimeOutOfRange
  | dataOutOfRange
deriving DecidableEq, Repr

def DatetimeError.message : DatetimeError → String
  | implicitConversion => "Implicit conversion from data type datetime to varbinary is not " ++
      "allowed. Use the CONVERT function to run this query."
  | datetimeOutOfRange => "datetime out of range"
  | dataOutOfRange => "data out of range for datetime"

/-! ### Rounding -/

def daycountInMonth : List Int := [31, 28, 31, 30, 31, 30, 31, 31, 30, 31, 30, 31]

/-- `UpdateToNextDayHelper`.  `isleap` of PostgreSQL tells the leap years. -/
def updateToNextDayHelper (tm : PgTm) : PgTm :=
  let tm := { tm with tm_hour := 0, tm_min := 0, tm_sec := 0 }
  let daycount := daycountInMonth.getD (tm.tm_mon - 1).toNat 0
  if tm.tm_mday = daycount ∧ tm.tm_mon = 12 then
    { tm with tm_year := tm.tm_year + 1, tm_mon := 1, tm_mday := 1 }
  else if (tm.tm_mday = daycount ∧ tm.tm_mon ≠ 2) ∨
      (tm.tm_mon = 2 ∧ tm.tm_mday = 29 ∧ isLeap tm.tm_year.toNat) ∨
      (tm.tm_mon = 2 ∧ tm.tm_mday = 28 ∧ ¬ isLeap tm.tm_year.toNat) then
    { tm with tm_mon := tm.tm_mon + 1, tm_mday := 1 }
  else { tm with tm_mday := tm.tm_mday + 1 }

def handleDatetimeCarryOver (tm : PgTm) (roundedMsec : Int) : PgTm × Int :=
  if roundedMsec = 1000 then
    let tm := { tm with tm_sec := tm.tm_sec + 1 }
    if tm.tm_sec = 60 then
      let tm := { tm with tm_sec := 0, tm_min := tm.tm_min + 1 }
      if tm.tm_min = 60 then
        let tm := { tm with tm_min := 0, tm_hour := tm.tm_hour + 1 }
        if tm.tm_hour = 24 then (updateToNextDayHelper tm, 0) else (tm, 0)
      else (tm, 0)
    else (tm, 0)
  else (tm, roundedMsec)

def roundFractionalSeconds (fractseconds : Int) : Int :=
  let modpart := fractseconds.tmod 10
  let decpart := fractseconds - modpart
  if modpart = 0 ∨ modpart = 1 then decpart
  else if modpart = 2 ∨ modpart = 3 ∨ modpart = 4 then decpart + 3
  else if modpart = 5 ∨ modpart = 6 ∨ modpart = 7 ∨ modpart = 8 then decpart + 7
  else decpart + 10

/-- `TIMESTAMP_NOT_FINITE`: the two ends of the range of 64 bits stand for the infinities. -/
def timestampNotFinite (timestamp : Int) : Bool :=
  timestamp = -9223372036854775808 ∨ timestamp = 9223372036854775807

variable (conv : TimestampConversions) {v : BitVec 32}

/-- `timestamp2tm`, and the error when it fails or the timestamp is infinite. -/
def finiteFields (timestamp : Int) :
    Except DatetimeError (PgTm × Int) :=
  if timestampNotFinite timestamp then .error .datetimeOutOfRange
  else
    match conv.timestamp2tm timestamp with
    | none => .error .datetimeOutOfRange
    | some fields => .ok fields

def roundoffDatetime (timestamp : Int) :
    Except DatetimeError Int := do
  let (tm, fsec) ← finiteFields conv timestamp
  let (tm, roundedMsec) := handleDatetimeCarryOver tm (roundFractionalSeconds (fsec.tdiv 1000))
  match conv.tm2timestamp tm (roundedMsec * 1000) with
  | none => .error .datetimeOutOfRange
  | some result => .ok result

/-- `CheckDatetimeRange`, and the timestamp that passes. -/
def checkDatetimeRange (time : Int) : Except DatetimeError Int :=
  if minDatetime ≤ time ∧ time < endDatetime then .ok time else .error .dataOutOfRange

/-! ### The two conversions -/

/-- `pg_hton32` on a little-endian machine, as the eight bytes of the 64-bit variable it is assigned
to. -/
def pgHton32 (x : Int) : List UInt8 := leBytes 8 (leNat (beBytes 4 (x % 2 ^ 32).toNat))

def datetimeVarbinary (ts typmod : Int) (isExplicit : Bool) :
    Except DatetimeError (List UInt8) :=
  if ¬ isExplicit then .error .implicitConversion
  else do
    let (tm, fsec) ← finiteFields conv ts
    let days :=
      if ts < tsqlDefaultDatetime then datepartMinValue + (ts - minDatetime).tdiv usecsPerDay
      else (ts - tsqlDefaultDatetime).tdiv usecsPerDay
    let totalMs := tm.tm_hour * 3600000 + tm.tm_min * 60000 + tm.tm_sec * 1000 + fsec.tdiv 1000
    let days := pgHton32 days
    let timePart := pgHton32 ((totalMs * 3 + 5).tdiv 10)
    if typmod < 8 + varhdrsz ∧ typmod > varhdrsz then
      let resultSize := (typmod - varhdrsz).toNat
      if resultSize ≤ 4 then .ok (slice timePart (4 - resultSize) 4)
      else .ok (slice days (4 - (resultSize - 4)) 4 ++ slice timePart 0 4)
    else .ok (slice days 0 4 ++ slice timePart 0 4)

/-- `buffer[size - 1 - i] << (8 * i)`, with the shift count modulo 32. -/
def shiftedInt (buffer : List UInt8) (i : Nat) : BitVec 32 :=
  (buffer.getD (buffer.length - 1 - i) 0).toBitVec.setWidth 32 <<< (8 * i % 32)

/-- The first loop of `varbinary_datetime`. -/
def timePart (buffer : List UInt8) : BitVec 32 :=
  (List.range (min buffer.length 4)).foldl (fun timePart i => timePart ||| shiftedInt buffer i) 0

/-- The second loop of `varbinary_datetime`, where the `int` is extended with its sign. -/
def dayPart (buffer : List UInt8) : BitVec 64 :=
  (List.range' 4 (min buffer.length 8 - 4)).foldl
    (fun days i => days ||| (shiftedInt buffer i).signExtend 64) 0

/-- `varbinary_datetime`, with the sums modulo `2 ^ 64`. -/
def varbinaryDatetime (buffer : List UInt8) :
    Except DatetimeError Int :=
  let days := dayPart buffer
  let msValue := ((timePart buffer).toNat * 10 : Int).tdiv 3
  let usecs := msValue * 1000
  if usecs ≥ usecsPerDay then .error .dataOutOfRange
  else do
    let result :=
      if days.toInt < 0 then
        let dayValue := (days &&& 0xFFFFFFFF).toInt
        wrap 64 (minDatetime + ((dayValue - minDateMask) * usecsPerDay + usecs))
      else wrap 64 (tsqlDefaultDatetime + (days.toInt * usecsPerDay + usecs))
    let result ← roundoffDatetime conv result
    checkDatetimeRange result

/-! ### The bytes -/

theorem slice_pgHton32 (x : Int) : slice (pgHton32 x) 0 4 = beBytes 4 (x % 2 ^ 32).toNat := by
  have h := leBytes_leNat (beBytes 4 (x % 2 ^ 32).toNat)
  rw [length_beBytes] at h
  rw [pgHton32, slice, List.drop_zero, take_leBytes 4 4, h]

theorem timePart_append {ds ts : List UInt8} (hds : ds.length = 4) (hts : ts.length = 4) :
    (timePart (ds ++ ts)).toNat = beNat ts := by
  match ds, ts, hds, hts with
  | [_, _, _, _], [t3, t2, t1, t0], _, _ =>
    exact toNat_orBytes (w := 32) (k := 4) (fun i => [t0, t1, t2, t3].getD i 0) (by decide)

theorem dayPart_append {ds ts : List UInt8} (hds : ds.length = 4) (hts : ts.length = 4) :
    ∃ v : BitVec 32, dayPart (ds ++ ts) = v.signExtend 64 ∧ v.toNat = beNat ds := by
  match ds, ts, hds, hts with
  | [d3, d2, d1, d0], [_, _, _, _], _, _ =>
    refine ⟨orBytes 32 (fun i => [d0, d1, d2, d3].getD i 0) 4, ?_, toNat_orBytes _ (by decide)⟩
    simp only [orBytes, List.range, List.range.loop, List.foldl, BitVec.signExtend_or]
    rfl

theorem toInt_of_toNat {x : Int} (h : v.toNat = (x % 2 ^ 32).toNat) (hx : Fits 32 x) :
    v.toInt = x := by
  rw [fits_32] at hx
  rw [BitVec.toInt_eq_toNat_cond]
  split <;> omega

theorem toInt_and_mask : (v.signExtend 64 &&& 0xFFFFFFFF).toInt = v.toNat := by
  have hlt := v.isLt
  have hsigned : (v.signExtend 64).toInt = v.toInt := BitVec.toInt_signExtend_of_le (by decide)
  have hmask : (v.signExtend 64 &&& 0xFFFFFFFF).toNat = (v.signExtend 64).toNat % 2 ^ 32 :=
    Nat.and_two_pow_sub_one_eq_mod _ 32
  rw [BitVec.toInt_eq_toNat_cond, BitVec.toInt_eq_toNat_cond] at hsigned
  rw [BitVec.toInt_eq_toNat_cond, hmask]
  split at hsigned <;> split at hsigned <;> split <;> omega

/-! ### Canonical values -/

/-- A moment that a `datetime` can stand for. -/
structure CanonicalDatetime (m : Moment) : Prop where
  year_ge : 1753 ≤ m.date.year
  year_le : m.date.year ≤ 9999
  digit : m.microsecond % 10000 = 0 ∨ m.microsecond % 10000 = 3000 ∨ m.microsecond % 10000 = 7000

/-- The number of days since the start of 1900. -/
def dayNumber (m : Moment) : Int := m.date.ordinal - 693596

/-- The time of the day in three hundredths of a second. -/
def ticks (m : Moment) : Nat := (m.ofDay / 1000 * 3 + 5) / 10

/-- The moment, with the milliseconds that are computed from the ticks. -/
def lowered (m : Moment) : Moment :=
  { m with
    microsecond := m.microsecond - if m.microsecond % 10000 = 7000 then 1000 else 0
    microsecond_lt := by
      have := m.microsecond_lt
      omega }

section Canonical

variable {m : Moment}

theorem timestampOf_bounds (h : m.date.year ≤ 9999) :
    -63082368000000000 ≤ timestampOf m ∧ timestampOf m < 252455616000000000 := by
  have hlast := yearsLength_eq 9999
  have hmono := yearsLength_mono h
  have hle := m.date.ordinal_le_yearsLength
  have hday := m.ofDay_lt
  rw [timestampOf_eq, Moment.microseconds]
  omega

theorem timestampOf_eq_dayNumber (m : Moment) :
    timestampOf m = tsqlDefaultDatetime + dayNumber m * usecsPerDay + m.ofDay := by
  rw [timestampOf_eq, Moment.microseconds, dayNumber, tsqlDefaultDatetime, usecsPerDay]
  omega

theorem CanonicalDatetime.dayNumber_bounds (h : CanonicalDatetime m) :
    -53690 ≤ dayNumber m ∧ dayNumber m ≤ 2958463 := by
  have hfirst := yearsLength_eq 1752
  have hlast := yearsLength_eq 9999
  have hge := h.year_ge
  have hmono1 := yearsLength_mono (show 1752 ≤ m.date.year - 1 by omega)
  have hmono2 := yearsLength_mono h.year_le
  have hle := m.date.ordinal_le_yearsLength
  have hlt := m.date.yearsLength_lt_ordinal
  unfold dayNumber
  omega

theorem ticks_lt (m : Moment) : ticks m < 25920001 := by
  have := m.ofDay_lt
  unfold ticks
  omega

theorem CanonicalDatetime.ticks_mul_div (h : CanonicalDatetime m) :
    ticks m * 10 / 3 * 1000 = (lowered m).ofDay := by
  have hdigit := h.digit
  unfold ticks lowered Moment.ofDay
  dsimp only
  split <;> omega

theorem CanonicalDatetime.days_eq (h : CanonicalDatetime m) :
    (if timestampOf m < tsqlDefaultDatetime then
      datepartMinValue + (timestampOf m - minDatetime).tdiv usecsPerDay
    else (timestampOf m - tsqlDefaultDatetime).tdiv usecsPerDay) = dayNumber m := by
  have hbounds := h.dayNumber_bounds
  have hday := m.ofDay_lt
  rw [timestampOf_eq_dayNumber]
  unfold tsqlDefaultDatetime datepartMinValue minDatetime usecsPerDay
  split
  all_goals
    rw [Int.tdiv_eq_ediv_of_nonneg (by omega)]
    omega

theorem ticks_eq :
    (((m.hour : Int) * 3600000 + m.minute * 60000 + m.second * 1000 +
      (m.microsecond : Int).tdiv 1000) * 3 + 5).tdiv 10 = ticks m := by
  have := m.microsecond_lt
  rw [Int.tdiv_eq_ediv_of_nonneg (a := (m.microsecond : Int)) (by omega),
    Int.tdiv_eq_ediv_of_nonneg (by omega)]
  unfold ticks Moment.ofDay
  omega

section

variable (h : CanonicalDatetime m)
include h

theorem CanonicalDatetime.timestampOf_lowered (hv : v.toNat = (dayNumber m % 2 ^ 32).toNat) :
    (if (v.signExtend 64).toInt < 0 then
      wrap 64 (minDatetime + (((v.signExtend 64 &&& 0xFFFFFFFF).toInt - minDateMask) * usecsPerDay +
        (lowered m).ofDay))
    else wrap 64 (tsqlDefaultDatetime + ((v.signExtend 64).toInt * usecsPerDay +
      (lowered m).ofDay))) = timestampOf (lowered m) := by
  have hbounds := h.dayNumber_bounds
  have htimestamp := timestampOf_bounds (m := lowered m) h.year_le
  have hfits : Fits 64 (timestampOf (lowered m)) := by
    rw [fits_64]
    omega
  have hint : (v.signExtend 64).toInt = dayNumber m :=
    (BitVec.toInt_signExtend_of_le (by decide)).trans
      (toInt_of_toNat hv (by rw [fits_32]; omega))
  have hlowered : dayNumber (lowered m) = dayNumber m := rfl
  rw [toInt_and_mask, hint, ← wrap_eq_self (by decide) hfits, timestampOf_eq_dayNumber, hlowered]
  unfold tsqlDefaultDatetime minDateMask minDatetime usecsPerDay
  split
  all_goals
    congr 1
    omega

theorem CanonicalDatetime.varbinaryDatetime_eq (conv : TimestampConversions) :
    varbinaryDatetime conv (beBytes 4 (dayNumber m % 2 ^ 32).toNat ++ beBytes 4 (ticks m)) =
      (roundoffDatetime conv (timestampOf (lowered m)) >>= checkDatetimeRange) := by
  have hticks := ticks_lt m
  have hday := (lowered m).ofDay_lt
  have hmillis := h.ticks_mul_div
  obtain ⟨v, hdays, hv⟩ := dayPart_append (length_beBytes 4 (dayNumber m % 2 ^ 32).toNat)
    (length_beBytes 4 (ticks m))
  have htime := timePart_append (length_beBytes 4 (dayNumber m % 2 ^ 32).toNat)
    (length_beBytes 4 (ticks m))
  rw [beNat_beBytes_of_lt (by omega)] at htime hv
  have husecs : ((ticks m : Int) * 10).tdiv 3 * 1000 = (lowered m).ofDay := by
    rw [Int.tdiv_eq_ediv_of_nonneg (by omega)]
    omega
  rw [varbinaryDatetime]
  dsimp only
  rw [htime, hdays, husecs, if_neg (by unfold usecsPerDay; omega), h.timestampOf_lowered hv]

theorem CanonicalDatetime.round_lowered :
    roundFractionalSeconds (((lowered m).microsecond : Int).tdiv 1000) * 1000 =
      m.microsecond := by
  have hlowered : (lowered m).microsecond =
      m.microsecond - if m.microsecond % 10000 = 7000 then 1000 else 0 := rfl
  unfold roundFractionalSeconds
  dsimp only
  rw [Int.tdiv_eq_ediv_of_nonneg (by omega), Int.tmod_eq_emod_of_nonneg (by omega)]
  have hdigit := h.digit
  split_ifs at hlowered ⊢ <;> omega

theorem CanonicalDatetime.checkDatetimeRange_eq :
    checkDatetimeRange (timestampOf m) = .ok (timestampOf m) := by
  have hbounds := h.dayNumber_bounds
  have hday := m.ofDay_lt
  have hdigit : m.ofDay % 10000 ≤ 7000 := by
    have := h.digit
    unfold Moment.ofDay
    omega
  apply if_pos
  rw [timestampOf_eq_dayNumber]
  unfold minDatetime endDatetime tsqlDefaultDatetime usecsPerDay
  omega

end

variable {conv : TimestampConversions} (hconv : conv.Correct)

include hconv

theorem finiteFields_eq (h : m.date.year ≤ 9999) :
    finiteFields conv (timestampOf m) = .ok (fieldsOf m, (m.microsecond : Int)) := by
  have hbounds := timestampOf_bounds h
  have hfinite : timestampNotFinite (timestampOf m) = false := by
    rw [timestampNotFinite, decide_eq_false_iff_not]
    omega
  rw [finiteFields, hfinite, hconv.timestamp2tm_eq m h]
  rfl

/-- **The rounding, when nothing is carried**: only the milliseconds change. -/
theorem roundoffDatetime_eq (h : m.date.year ≤ 9999) {n : Moment}
    (hfields : fieldsOf n = fieldsOf m)
    (hround : roundFractionalSeconds ((m.microsecond : Int).tdiv 1000) * 1000 = n.microsecond) :
    roundoffDatetime conv (timestampOf m) = .ok (timestampOf n) := by
  have hlt := n.microsecond_lt
  have hyear : n.date.year = m.date.year := by
    have := congrArg PgTm.tm_year hfields
    simp only [fieldsOf_tm_year] at this
    omega
  rw [roundoffDatetime, finiteFields_eq hconv h, ok_bind]
  dsimp only
  rw [handleDatetimeCarryOver, if_neg (by omega)]
  dsimp only
  rw [hround, ← hfields, hconv.tm2timestamp_eq n (by omega)]

section

variable {typmod : Int} (h : CanonicalDatetime m)
  (htypmod : ¬ (typmod < 8 + varhdrsz ∧ typmod > varhdrsz))
include h htypmod

/-- **The eight bytes of a value.** -/
theorem datetimeVarbinary_eq :
    datetimeVarbinary conv (timestampOf m) typmod true =
      .ok (beBytes 4 (dayNumber m % 2 ^ 32).toNat ++ beBytes 4 (ticks m)) := by
  have hticks := ticks_lt m
  have hmod : ((ticks m : Int) % 2 ^ 32).toNat = ticks m := by omega
  rw [datetimeVarbinary, if_neg (by decide), finiteFields_eq hconv h.year_le, ok_bind]
  dsimp only
  rw [h.days_eq, if_neg htypmod, slice_pgHton32, slice_pgHton32]
  simp only [fieldsOf]
  rw [ticks_eq, hmod]

theorem CanonicalDatetime.read_back :
    (datetimeVarbinary conv (timestampOf m) typmod true >>= varbinaryDatetime conv) =
      .ok (timestampOf m) := by
  rw [datetimeVarbinary_eq hconv h htypmod, ok_bind, h.varbinaryDatetime_eq,
    roundoffDatetime_eq hconv (m := lowered m) h.year_le (n := m) rfl h.round_lowered, ok_bind,
    h.checkDatetimeRange_eq]

end

end Canonical

theorem exists_canonicalDatetime {ts : Int} (hmin : minDatetime ≤ ts) (hend : ts < endDatetime)
    (hdigit : ts % 10000 = 0 ∨ ts % 10000 = 3000 ∨ ts % 10000 = 7000) :
    ∃ m, timestampOf m = ts ∧ CanonicalDatetime m := by
  unfold minDatetime at hmin
  unfold endDatetime at hend
  obtain ⟨m, hm⟩ := Moment.exists_microseconds (n := (ts + 63082368000000000).toNat) (by omega)
  have hday := m.ofDay_lt
  have hts : timestampOf m = ts := by
    rw [timestampOf_eq]
    omega
  have hsplit := timestampOf_eq_dayNumber m
  rw [hts, dayNumber, tsqlDefaultDatetime, usecsPerDay] at hsplit
  refine ⟨m, hts, ?_, ?_, ?_⟩
  · have hlength := yearsLength_eq 1752
    by_contra hyear
    have hmono := yearsLength_mono (show m.date.year ≤ 1752 by omega)
    have hle := m.date.ordinal_le_yearsLength
    omega
  · have hlength := yearsLength_eq 9999
    by_contra hyear
    have hmono := yearsLength_mono (show 9999 ≤ m.date.year - 1 by omega)
    have hlt := m.date.yearsLength_lt_ordinal
    omega
  · unfold Moment.ofDay at hsplit
    omega

/-- **A `datetime` is read back from its eight bytes.** -/
theorem varbinaryDatetime_datetimeVarbinary {conv : TimestampConversions} (hconv : conv.Correct)
    {ts typmod : Int} (hmin : minDatetime ≤ ts) (hend : ts < endDatetime)
    (hdigit : ts % 10000 = 0 ∨ ts % 10000 = 3000 ∨ ts % 10000 = 7000)
    (htypmod : ¬ (typmod < 8 + varhdrsz ∧ typmod > varhdrsz)) :
    (datetimeVarbinary conv ts typmod true >>= varbinaryDatetime conv) = .ok ts := by
  obtain ⟨m, rfl, hm⟩ := exists_canonicalDatetime hmin hend hdigit
  exact hm.read_back hconv htypmod

/-- The last value before 1900. -/
theorem varbinaryDatetime_before_1900 :
    (datetimeVarbinary calendarConversions (-3155673600003000) (-1) true >>=
      varbinaryDatetime calendarConversions) = .ok (-3155673600003000) :=
  varbinaryDatetime_datetimeVarbinary calendarConversions_correct (by decide) (by decide)
    (by decide) (by decide)

end Babelfish.Common
