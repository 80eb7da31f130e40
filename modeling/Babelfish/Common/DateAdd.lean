import Babelfish.Common.DateDiff
import Babelfish.Common.DatetimeVarbinary

/-!
# Adding date parts to a timestamp

`dateadd_datetime` makes an interval of the count and adds it to the start value.  The interval
arithmetic is PostgreSQL's, a parameter that is assumed to be exact.  One check of the range, that
of `datetime`, serves all five types.

* `dateadd_iff`: when the function returns the moved value or reports that it is out of range.
-/

namespace Babelfish.Common

open Lib

/-- `enum Datetimetype` -/
inductive Datetimetype where
  | time | date | smalldatetime | datetime | datetime2
deriving DecidableEq, Repr

/-- `datetypeName` -/
def Datetimetype.name : Datetimetype → String
  | time => "time"
  | date => "date"
  | smalldatetime => "smalldatetime"
  | datetime => "datetime"
  | datetime2 => "datetime2"

inductive DateAddError where
  | datetime2OutOfRange
  | overflow (type : Datetimetype)
  | incompatible (lowunits : String) (type : Datetimetype)
  | notRecognized (lowunits : String)
deriving DecidableEq, Repr

def DateAddError.message : DateAddError → String
  | datetime2OutOfRange => "data out of range for datetime2"
  | overflow type => "Adding a value to a '" ++ type.name ++ "' column caused an overflow."
  | incompatible lowunits type => "The datepart " ++ lowunits ++
      " is not supported by date function dateadd for data type " ++ type.name ++ "."
  | notRecognized lowunits => "'" ++ lowunits ++ "' is not a recognized dateadd option"

/-- The timestamps of a type, from the first one to the one behind the last. -/
def Datetimetype.range : Datetimetype → Int × Int
  | time => (tsqlDefaultDatetime, tsqlDefaultDatetime + usecsPerDay)
  | smalldatetime => (-3155673630001000, 2506636769999000)
  | datetime => (minDatetime, endDatetime)
  | date | datetime2 => (-63082281600000000, 252455616000000000)

open Datetimetype

def Datetimetype.Holds (type : Datetimetype) (t : Int) : Prop :=
  type.range.1 ≤ t ∧ t < type.range.2

instance (type : Datetimetype) (t : Int) : Decidable (type.Holds t) :=
  inferInstanceAs (Decidable (_ ∧ _))

/-- The start value as a timestamp, by `time_datetime2` and `date_datetime2`. -/
def Datetimetype.timestamp (type : Datetimetype) (value : Int) : Except DateAddError Int :=
  match type with
  | time => .ok (tsqlDefaultDatetime + value)
  | date =>
    if datetime2.Holds (value * usecsPerDay) then .ok (value * usecsPerDay)
    else .error .datetime2OutOfRange
  | _ => .ok value

structure Interval where
  months : Int
  days : Int
  usecs : Int

/-- The moment some months later: the same day, or the last one of the month if there is no such
day, unless that is before the year 1. -/
def monthsLater (m : Moment) (n : Int) : Option Moment :=
  let k := 12 * m.date.year + (m.date.month - 1) + n
  if h : 12 ≤ k then
    some { m with date := ⟨(k / 12).toNat, (k % 12).toNat + 1,
      min m.date.day (monthLength (k / 12).toNat ((k % 12).toNat + 1)), by omega, by omega,
      by omega, le_min m.date.day_pos (monthLength_pos _ _), min_le_right _ _⟩ }
  else none

/-- `make_interval` and `timestamp_pl_interval` of PostgreSQL, where `none` stands for an error, and
the microseconds of a count of seconds or less, which is a floating-point number. -/
structure IntervalOps where
  plInterval : Int → Interval → Option Int
  secs : DatePart → Int → Int

variable (ops : IntervalOps)

/-- The addition is exact where it is defined, with the months of the calendar, and it is defined
where `datetime2` holds the sum. -/
structure IntervalOps.Exact : Prop where
  months : ∀ {m n m'}, monthsLater m n = some m' → ∀ t ∈ ops.plInterval (timestampOf m) ⟨n, 0, 0⟩,
    t = timestampOf m'
  beforeYearOne : ∀ {m n}, monthsLater m n = none →
    ∀ t ∈ ops.plInterval (timestampOf m) ⟨n, 0, 0⟩, t < datetime2.range.1
  months_defined : ∀ {m n m'}, monthsLater m n = some m' → datetime2.Holds (timestampOf m') →
    (ops.plInterval (timestampOf m) ⟨n, 0, 0⟩).isSome = true
  days : ∀ {t days usecs t'}, ops.plInterval t ⟨0, days, usecs⟩ = some t' →
    t' = t + days * usecsPerDay + usecs
  days_defined : ∀ {t days usecs}, datetime2.Holds (t + days * usecsPerDay + usecs) →
    (ops.plInterval t ⟨0, days, usecs⟩).isSome = true

/-- `interval`, where `num * 3` is an `int`. -/
def IntervalOps.interval (num : Int) : DatePart → Interval
  | .year => ⟨12 * num, 0, 0⟩
  | .quarter => ⟨wrap 32 (num * 3), 0, 0⟩
  | .month => ⟨num, 0, 0⟩
  | .week => ⟨0, 7 * num, 0⟩
  | .day | .doy => ⟨0, num, 0⟩
  | .hour => ⟨0, 0, num * 3600000000⟩
  | .minute => ⟨0, 0, num * 60000000⟩
  | part => ⟨0, 0, ops.secs part num⟩

/-- The date parts that the function refuses for a type. -/
def Datetimetype.lacks : Datetimetype → DatePart → Bool
  | time, part => part ∈ [.year, .quarter, .month, .week, .day, .doy]
  | date, part => part ∈ [.hour, .minute, .second, .millisec, .microsec, .nano]
  | smalldatetime, part | datetime, part => part ∈ [.microsec, .nano]
  | datetime2, _ => false

def UnitNames.addUnit (names : UnitNames) (lowunits : String) : Option Units :=
  if lowunits = "dayofyear" then some (.datepart .doy) else names.unit lowunits

def dateaddDatetime (names : UnitNames) (field : String) (num value : Int)
    (type : Datetimetype) : Except DateAddError Int := do
  let timestamp ← type.timestamp value
  let lowunits := names.downcaseTruncateIdentifier field
  match names.addUnit lowunits with
  | some (.datepart part) =>
    if type.lacks part then .error (.incompatible lowunits type)
    else
      let interval := ops.interval num part
      match ops.plInterval timestamp interval with
      | some result =>
        if datetime.Holds result then .ok result else .error (.overflow type)
      | none => .error (.overflow type)
  | _ => .error (.notRecognized lowunits)

variable {ops} {names : UnitNames} {field : String} {part : DatePart}

theorem Datetimetype.Holds.datetime2 {t : Int} (h : datetime.Holds t) : datetime2.Holds t := by
  simp only [Datetimetype.Holds, range, minDatetime, endDatetime] at h ⊢
  omega

/-! ### On the calendar -/

/-- The moment `num` date parts later on the calendar, as a timestamp; none before the year 1.  Only
the parts from a year to a minute are considered. -/
def movedBy (m : Moment) (num : Int) : DatePart → Option Int
  | .year => (monthsLater m (12 * num)).map timestampOf
  | .quarter => (monthsLater m (3 * num)).map timestampOf
  | .month => (monthsLater m num).map timestampOf
  | .week => some (timestampOf m + 7 * num * usecsPerDay)
  | .day | .doy => some (timestampOf m + num * usecsPerDay)
  | .hour => some (timestampOf m + 60 * num * 60000000)
  | .minute => some (timestampOf m + num * 60000000)
  | _ => none

/-- **What the function should do**: return the moved moment if the type holds it, and raise an
error otherwise. -/
def MovesRight (type : Datetimetype) (moved : Option Int) (out : Except DateAddError Int) : Prop :=
  (∀ t ∈ moved, type.Holds t → out = .ok t) ∧
    ((∀ t ∈ moved, ¬ type.Holds t) → ∃ e, out = .error e)

/-- The month `n` months later lies in the years 1753 to 9999, and the moment in it not in their
last millisecond. -/
def LandsInDatetime (m : Moment) (n : Int) : Prop :=
  let k := 12 * (m.date.year : Int) + (m.date.month - 1) + n
  12 * 1753 ≤ k ∧ k < 12 * 10000 ∧
    ¬ (k = 12 * 10000 - 1 ∧ m.date.day = 31 ∧ 86399999000 ≤ m.ofDay)

theorem yearsLength_bounds (d : Date) :
    (1753 ≤ d.year ↔ 639906 ≤ d.ordinal) ∧ (d.year < 10000 ↔ d.ordinal ≤ 3652059) := by
  have hlt := d.yearsLength_lt_ordinal
  have hle := d.ordinal_le_yearsLength
  have h1752 := yearsLength_eq 1752
  have h9999 := yearsLength_eq 9999
  have hmono : ∀ {a b}, a ≤ b → yearsLength a ≤ yearsLength b := fun h => yearsLength_mono h
  refine ⟨⟨fun h => ?_, fun h => ?_⟩, ⟨fun h => ?_, fun h => ?_⟩⟩
  · have := hmono (show 1752 ≤ d.year - 1 by omega)
    omega
  · by_contra hcon
    have := hmono (show d.year ≤ 1752 by omega)
    omega
  · have := hmono (show d.year ≤ 9999 by omega)
    omega
  · by_contra hcon
    have := hmono (show 9999 ≤ d.year - 1 by omega)
    omega

theorem ordinal_last (d : Date) :
    d.ordinal = 3652059 ↔ d.year = 9999 ∧ d.month = 12 ∧ d.day = 31 := by
  rw [← Date.ordinal_eq_yearsLength_iff]
  have hlt := d.yearsLength_lt_ordinal
  have hbounds := (yearsLength_bounds d).2
  have h9999 := yearsLength_eq 9999
  constructor
  · intro h
    have hyear : d.year = 9999 := by
      by_contra hcon
      have := d.ordinal_le_yearsLength.trans (yearsLength_mono (show d.year ≤ 9998 by omega))
      have := yearsLength_eq 9998
      omega
    exact ⟨hyear, by rw [hyear]; omega⟩
  · rintro ⟨hyear, h⟩
    rw [hyear] at h
    omega

theorem datetime2_holds_timestampOf (m : Moment) :
    datetime2.Holds (timestampOf m) ↔ m.date.year < 10000 := by
  have hpos := m.date.yearsLength_lt_ordinal
  have hday := m.ofDay_lt
  rw [(yearsLength_bounds m.date).2, timestampOf_eq, Moment.microseconds]
  simp only [Datetimetype.Holds, range]
  omega

theorem datetime_holds_timestampOf (m : Moment) :
    datetime.Holds (timestampOf m) ↔ 1753 ≤ m.date.year ∧ m.date.year < 10000 ∧
      ¬ ((m.date.year = 9999 ∧ m.date.month = 12 ∧ m.date.day = 31) ∧ 86399999000 ≤ m.ofDay) := by
  have hday := m.ofDay_lt
  rw [(yearsLength_bounds m.date).1, (yearsLength_bounds m.date).2, ← ordinal_last, timestampOf_eq,
    Moment.microseconds]
  simp only [Datetimetype.Holds, range, minDatetime, endDatetime]
  omega

theorem monthsLater_spec {m m' : Moment} {n k : Int} (h : monthsLater m n = some m')
    (hk : k = 12 * m.date.year + (m.date.month - 1) + n) :
    12 ≤ k ∧ m'.date.year = k / 12 ∧ m'.date.month = k % 12 + 1 ∧
      m'.date.day = min m.date.day (monthLength m'.date.year m'.date.month) ∧
      m'.ofDay = m.ofDay := by
  unfold monthsLater at h
  dsimp only at h
  split_ifs at h with hk'
  obtain rfl := Option.some.inj h
  dsimp only
  exact ⟨by omega, by omega, by omega, rfl, rfl⟩

theorem datetime_holds_monthsLater {m m' : Moment} {n : Int} (h : monthsLater m n = some m') :
    datetime.Holds (timestampOf m') ↔ LandsInDatetime m n := by
  rw [datetime_holds_timestampOf, LandsInDatetime]
  set k := 12 * (m.date.year : Int) + (m.date.month - 1) + n with hk
  obtain ⟨hpos, hyear, hmonth, hday, hofDay⟩ := monthsLater_spec h hk
  -- December has the 31st day, so the day stays the last one only if it was
  have hlast : m'.date.year = 9999 → m'.date.month = 12 → m'.date.day = m.date.day := by
    intro hy hm
    have hlength : monthLength 9999 12 = 31 := rfl
    have hle := m.date.day_le.trans (monthLength_le m.date.year m.date.month)
    rw [hday, hy, hm, hlength, min_eq_left hle]
  rw [hofDay]
  omega

/-- The end of the function: the range of `datetime` decides. -/
def inRange (type : Datetimetype) : Option Int → Except DateAddError Int
  | some result => if datetime.Holds result then .ok result else .error (.overflow type)
  | none => .error (.overflow type)

theorem dateaddDatetime_eq {m : Moment} {value num : Int} {type : Datetimetype}
    (hunit : names.addUnit (names.downcaseTruncateIdentifier field) = some (.datepart part))
    (ht : type.timestamp value = .ok (timestampOf m)) (hpart : type.lacks part = false) :
    dateaddDatetime ops names field num value type =
      inRange type (ops.plInterval (timestampOf m) (ops.interval num part)) := by
  simp [dateaddDatetime, ht, hunit, hpart, ok_bind, inRange]

/-- What the interval arithmetic makes of the moved moment. -/
structure Adds (moved sum : Option Int) : Prop where
  exact : ∀ t ∈ sum, t ∈ moved ∨ moved = none ∧ t < datetime2.range.1
  defined : ∀ t ∈ moved, datetime2.Holds t → sum.isSome = true

theorem IntervalOps.Exact.adds_months (h : ops.Exact) (m : Moment) (n : Int) :
    Adds ((monthsLater m n).map timestampOf) (ops.plInterval (timestampOf m) ⟨n, 0, 0⟩) := by
  cases hlater : monthsLater m n with
  | none => exact ⟨fun t ht => .inr ⟨rfl, h.beforeYearOne hlater t ht⟩, nofun⟩
  | some m' =>
    refine ⟨fun t ht => .inl (by rw [h.months hlater t ht]; rfl), ?_⟩
    intro t ht hholds
    rw [← Option.some.inj ht] at hholds
    exact h.months_defined hlater hholds

theorem IntervalOps.Exact.adds_of_eq (h : ops.Exact) {t t' days usecs : Int}
    (heq : t' = t + days * usecsPerDay + usecs) :
    Adds (some t') (ops.plInterval t ⟨0, days, usecs⟩) := by
  subst heq
  refine ⟨fun t' ht' => .inl (congrArg some (h.days ht').symm), ?_⟩
  intro t' ht' hholds
  rw [← Option.some.inj ht'] at hholds
  exact h.days_defined hholds

theorem Adds.inRange_eq {moved sum : Option Int} (h : Adds moved sum) (type : Datetimetype) :
    inRange type sum = inRange type moved := by
  cases hsum : sum with
  | none =>
    cases hmoved : moved with
    | none => rfl
    | some t =>
      have hholds : ¬ datetime.Holds t := fun hholds =>
        absurd (h.defined t hmoved hholds.datetime2) (by simp [hsum])
      simp [inRange, hholds]
  | some t =>
    obtain hmoved | ⟨hmoved, hlt⟩ := h.exact t hsum
    · rw [hmoved]
    · have hholds : ¬ datetime.Holds t := fun hholds => absurd hholds.datetime2.1 (by omega)
      simp [inRange, hholds, hmoved]

theorem movesRight_inRange (type : Datetimetype) (moved : Option Int) :
    MovesRight type moved (inRange type moved) ↔
      ∀ t ∈ moved, (type.Holds t ↔ datetime.Holds t) := by
  cases moved with
  | none => simp [MovesRight, inRange]
  | some t =>
    by_cases htype : type.Holds t <;> by_cases hdatetime : datetime.Holds t <;>
      simp [MovesRight, inRange, htype, hdatetime]

/-- The parts from a year to a minute. -/
def DatePart.aboveSeconds : DatePart → Prop
  | .year | .quarter | .month | .week | .day | .doy | .hour | .minute => True
  | _ => False

theorem IntervalOps.Exact.adds (h : ops.Exact) (m : Moment) {num : Int}
    (habove : part.aboveSeconds) (hquarter : part = .quarter → Fits 32 (3 * num)) :
    Adds (movedBy m num part) (ops.plInterval (timestampOf m) (ops.interval num part)) := by
  cases part with
  | year => exact h.adds_months m (12 * num)
  | quarter =>
    have hwrap : wrap 32 (num * 3) = 3 * num := by
      rw [mul_comm, wrap_eq_self (by decide) (hquarter rfl)]
    rw [IntervalOps.interval, hwrap]
    exact h.adds_months m (3 * num)
  | month => exact h.adds_months m num
  | week => exact h.adds_of_eq (by rw [add_zero])
  | day | doy => exact h.adds_of_eq (by rw [add_zero])
  | hour => exact h.adds_of_eq (by omega)
  | minute => exact h.adds_of_eq (by omega)
  | _ => exact habove.elim

theorem Datetimetype.Holds.year_lt {type : Datetimetype} {m : Moment}
    (h : type.Holds (timestampOf m)) : m.date.year < 10000 := by
  rw [← datetime2_holds_timestampOf]
  cases type <;> simp only [Datetimetype.Holds, range, minDatetime, endDatetime,
    tsqlDefaultDatetime, usecsPerDay] at h ⊢ <;> omega

theorem forall_not_holds_iff (m : Moment) (n : Int) :
    (∀ t ∈ (monthsLater m n).map timestampOf, ¬ datetime.Holds t) ↔ ¬ LandsInDatetime m n := by
  cases hlater : monthsLater m n with
  | none =>
    have hout : ¬ LandsInDatetime m n := by
      unfold monthsLater at hlater
      dsimp only at hlater
      split_ifs at hlater with hk
      unfold LandsInDatetime
      omega
    simp [hout]
  | some m' => simp [datetime_holds_monthsLater hlater]

/-- Three times a count that wraps is too far away for every type. -/
theorem not_holds_of_wraps {type : Datetimetype} {m : Moment} {num : Int}
    (hstart : m.date.year < 10000) (hwrap : ¬ Fits 32 (3 * num)) :
    ∀ t ∈ movedBy m num .quarter, ¬ type.Holds t := by
  intro t ht hholds
  obtain ⟨m', hm', rfl⟩ := Option.map_eq_some_iff.1 ht
  have hyear := hholds.year_lt
  obtain ⟨hpos, hdiv, -⟩ := monthsLater_spec hm' rfl
  have hmonth := m.date.month_le
  unfold Fits at hwrap
  omega

theorem movesRight_of_not_holds {type : Datetimetype} {moved sum : Option Int}
    (h : ∀ t ∈ moved, ¬ type.Holds t) :
    MovesRight type moved (inRange type sum) ↔ ∀ t ∈ sum, ¬ datetime.Holds t := by
  have hmoves : MovesRight type moved (inRange type sum) ↔ ∃ e, inRange type sum = .error e :=
    ⟨fun hright => hright.2 h, fun herror => ⟨fun t ht hholds => absurd hholds (h t ht),
      fun _ => herror⟩⟩
  rw [hmoves]
  cases sum with
  | none => simp [inRange]
  | some t => by_cases hholds : datetime.Holds t <;> simp [inRange, hholds]

/-- **When the function moves a value**: the type and `datetime` must agree about the moved moment;
and where the months of the quarters do not fit an `int`, the wrapped count must lead out of
`datetime`. -/
theorem dateadd_iff (hexact : ops.Exact)
    (hunit : names.addUnit (names.downcaseTruncateIdentifier field) = some (.datepart part))
    (habove : part.aboveSeconds) (type : Datetimetype) (m : Moment) (value num : Int)
    (hvalue : type.timestamp value = .ok (timestampOf m)) (hstart : type.Holds (timestampOf m))
    (hlacks : type.lacks part = false) :
    MovesRight type (movedBy m num part) (dateaddDatetime ops names field num value type) ↔
      if part = .quarter ∧ ¬ Fits 32 (3 * num) then ¬ LandsInDatetime m (wrap 32 (3 * num))
      else ∀ t ∈ movedBy m num part, (type.Holds t ↔ datetime.Holds t) := by
  rw [dateaddDatetime_eq hunit hvalue hlacks]
  split_ifs with hwrap
  · obtain ⟨rfl, hwrap⟩ := hwrap
    rw [IntervalOps.interval, (hexact.adds_months m (wrap 32 (num * 3))).inRange_eq,
      movesRight_of_not_holds (not_holds_of_wraps hstart.year_lt hwrap), mul_comm num]
    exact forall_not_holds_iff m _
  · have hquarter : part = .quarter → Fits 32 (3 * num) :=
      fun hpart => by_contra fun hfits => hwrap ⟨hpart, hfits⟩
    rw [(hexact.adds m habove hquarter).inRange_eq, movesRight_inRange]

theorem monthsLater_zero (m : Moment) : monthsLater m 0 = some m := by
  have hyear := m.date.year_pos
  have hmonth := m.date.month_pos
  have hle := m.date.month_le
  let k : Int := 12 * m.date.year + (m.date.month - 1) + 0
  have hk : (k / 12).toNat = m.date.year ∧ (k % 12).toNat + 1 = m.date.month := by omega
  unfold monthsLater
  rw [dif_pos (by omega)]
  refine congrArg some (Moment.ext (Date.ext hk.1 hk.2 ?_) rfl rfl rfl rfl)
  change min _ (monthLength (k / 12).toNat ((k % 12).toNat + 1)) = _
  rw [hk.1, hk.2, min_eq_left m.date.day_le]

/-- The calendar itself as the arithmetic. -/
noncomputable def calendarOps : IntervalOps where
  plInterval t iv :=
    if iv.months = 0 then some (t + iv.days * usecsPerDay + iv.usecs)
    else (monthsLater (Function.invFun timestampOf t) iv.months).map timestampOf
  secs _ _ := 0

theorem calendarOps_months (m : Moment) (n : Int) :
    calendarOps.plInterval (timestampOf m) ⟨n, 0, 0⟩ = (monthsLater m n).map timestampOf := by
  unfold calendarOps
  dsimp only
  split_ifs with hn
  · subst hn
    rw [monthsLater_zero, zero_mul, add_zero, add_zero, Option.map_some]
  · rw [Function.leftInverse_invFun timestampOf_injective m]

theorem calendarOps_exact : calendarOps.Exact where
  months h t ht := by
    rw [calendarOps_months, h] at ht
    exact (Option.some.inj ht).symm
  beforeYearOne h t ht := by
    rw [calendarOps_months, h] at ht
    cases ht
  months_defined h _ := by
    rw [calendarOps_months, h]
    rfl
  days h := (Option.some.inj h).symm
  days_defined _ := rfl

theorem timestampOf_epoch : timestampOf (Moment.midnight postgresEpoch) = 0 := by
  have hday : (Moment.midnight postgresEpoch).ofDay = 0 := rfl
  rw [timestampOf_eq, Moment.microseconds, hday, show (Moment.midnight postgresEpoch).date =
    postgresEpoch from rfl, postgresEpoch_ordinal]
  omega

theorem dateadd_iff_tomorrow :
    dateaddDatetime calendarOps ⟨id, fun _ => some (.datepart .day)⟩ "day" 1 0 .date =
      .ok usecsPerDay := by
  have hstart :
      Datetimetype.timestamp .date 0 = .ok (timestampOf (Moment.midnight postgresEpoch)) := by
    rw [timestampOf_epoch]
    rfl
  have h := dateadd_iff calendarOps_exact
    (show UnitNames.addUnit ⟨id, fun _ => some (.datepart .day)⟩ (id "day") = _ from rfl) trivial
    .date (Moment.midnight postgresEpoch) 0 1 hstart (by rw [timestampOf_epoch]; decide) rfl
  rw [if_neg (by decide)] at h
  simp only [movedBy, timestampOf_epoch] at h
  exact (h.2 (by decide)).1 _ rfl (by decide)

/-- A day after 1700-01-01, which `date` has and `datetime` has not. -/
theorem dateadd_before_1753 :
    date.Holds (-109571 * usecsPerDay) ∧
      dateaddDatetime calendarOps ⟨id, fun _ => some (.datepart .day)⟩ "day" 1 (-109572) .date =
        .error (.overflow .date) := by
  decide +kernel

end Babelfish.Common
