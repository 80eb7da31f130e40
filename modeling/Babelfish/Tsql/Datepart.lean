import Babelfish.Common.DateDiff
import Mathlib.Algebra.Order.Interval.Finset.SuccPred
import Mathlib.Data.Nat.SuccPred
import Mathlib.Order.Interval.Finset.Nat

/-!
# `DATEPART`

`datepart_internal` reads a part of the date from the fields of a timestamp.  The weekday comes from
Zeller's congruence, in unsigned numbers; the number of the week comes from the weekday of the first
of January, by a call of the function for that day.

* `zeller_eq`: the congruence gives the weekday of the calendar.
* `weekday_and_week`: the weekday and the week of every date.
-/

namespace Babelfish.Tsql.Datepart

open Lib Common

/-! ### The function -/

/-- The names of fields that are recognized, and any other name. -/
inductive Field
  | year | quarter | month | day | hour | minute | second | doy | dow
  | tsqlWeek | week | millisecond | microsecond | nanosecond | tzoffset
  | other (field : String)

inductive DatepartError
  | overflow
  | tzoffsetNotSupported
  | notRecognized (field : String)

/-- What the function calls: PostgreSQL's conversions of dates, and the operations on `df_tz`. -/
structure Calls (F : Type) where
  conv : TimestampConversions
  date2j : Int → Int → Int → Int
  date2isoweek : Int → Int → Int → Int
  /-- `df_tz > DATEPART_MAX_VALUE || df_tz < DATEPART_MIN_VALUE` -/
  outOfRange : F → Bool
  /-- `(df_tz - DAYS_BETWEEN_YEARS_1900_TO_2000) * USECS_PER_DAY` -/
  daysTimestamp : F → Int
  toInt : F → Int

/-- A value held in a `uint`. -/
def u32 (n : Int) : Int := n % 2 ^ 32

/-- The formula of Zeller's congruence. -/
def congruence (day month year : Int) : Int :=
  u32 (day + 2 * month + u32 (3 * (month + 1)) / 5 + year + year / 4 - year / 100 + year / 400 + 2)
    % 7

/-- Zeller's congruence, where January and February belong to the year before; 0 is a Saturday. -/
def zeller (tm : PgTm) : Int :=
  if tm.tm_mon < 3 then congruence (u32 tm.tm_mday) (u32 (tm.tm_mon + 12)) (u32 (tm.tm_year - 1))
  else congruence (u32 tm.tm_mday) (u32 tm.tm_mon) (u32 tm.tm_year)

def dow (datefirst : Int) (tm : PgTm) : Int :=
  let res := zeller tm
  if u32 (res + 7 - datefirst) % 7 = 0 then 7 else u32 (res + 7 - datefirst) % 7

section

variable {F : Type} (calls : Calls F) (datefirst : Int)

def doy (tm : PgTm) : Int :=
  calls.date2j tm.tm_year tm.tm_mon tm.tm_mday - calls.date2j tm.tm_year 1 1 + 1

/-- The case `tsql_week`, with the two calls of the function itself. -/
def tsqlWeek (tm : PgTm) : Except DatepartError Int :=
  let firstDay := calls.date2j tm.tm_year 1 1 - 2440588
  match calls.conv.timestamp2tm ((firstDay - (2451545 - 2440588)) * 86400000000) with
  | none => .error .overflow
  | some (tm1, _) =>
    let firstWeekEnd := u32 (8 - dow datefirst tm1)
    let dayOfYear := u32 (doy calls tm)
    if dayOfYear ≤ firstWeekEnd then .ok 1
    else .ok (2 + u32 (dayOfYear - firstWeekEnd - 1) / 7)

def datepartInternal (field : Field) (timestamp : Int) (dfTz : F)
    (generalIntegerDatatype : Bool) : Except DatepartError Int :=
  if timestamp = 0 ∧ generalIntegerDatatype ∧ calls.outOfRange dfTz then .error .overflow
  else
    let timestamp :=
      if timestamp = 0 ∧ generalIntegerDatatype then calls.daysTimestamp dfTz else timestamp
    match calls.conv.timestamp2tm timestamp with
    | none => .error .overflow
    | some (tm, fsec1) =>
      match field with
      | .year => .ok tm.tm_year
      | .quarter => .ok ((tm.tm_mon + 2) / 3)
      | .month => .ok tm.tm_mon
      | .day => .ok tm.tm_mday
      | .hour => .ok tm.tm_hour
      | .minute => .ok tm.tm_min
      | .second => .ok tm.tm_sec
      | .doy => .ok (doy calls tm)
      | .dow => .ok (dow datefirst tm)
      | .tsqlWeek => tsqlWeek calls datefirst tm
      | .week => .ok (calls.date2isoweek tm.tm_year tm.tm_mon tm.tm_mday)
      | .millisecond => .ok (fsec1.tdiv 1000)
      | .microsecond => .ok fsec1
      | .nanosecond => .ok (fsec1 * 1000)
      | .tzoffset =>
        if generalIntegerDatatype then .error .tzoffsetNotSupported else .ok (calls.toInt dfTz)
      | .other field => .error (.notRecognized field)

end

/-! ### Weekdays -/

/-- The weekday of the day with the number `n`, from 1 for Monday on: the first day is a Monday. -/
def weekday (n : Nat) : Nat := (n + 6) % 7 + 1

/-- The number of a weekday when they are counted from `datefirst` on. -/
def countedFrom (datefirst weekday : Nat) : Nat := (weekday + 7 - datefirst) % 7 + 1

def newYear (d : Date) : Date :=
  ⟨d.year, 1, 1, d.year_pos, Nat.one_pos, january_le, Nat.one_pos, monthLength_pos _ _⟩

/-- **The week of a date**: one, and one more for each day after the first of January on which a
week begins. -/
def weekOf (datefirst : Nat) (d : Date) : Nat :=
  1 + ((Finset.Ioc (newYear d).ordinal d.ordinal).filter fun n => weekday n = datefirst).card

theorem u32_of_nonneg {n : Int} (h : 0 ≤ n ∧ n < 2 ^ 32) : u32 n = n := Int.emod_eq_of_lt h.1 h.2

theorem dayOfYear_le (d : Date) : d.dayOfYear ≤ 366 := by
  refine Nat.le_trans d.dayOfYear_le_yearLength ?_
  unfold yearLength
  split <;> decide

/-- The days of a year before a month from March on, as the congruence counts them. -/
theorem monthsLength_mod {d : Date} (h : 3 ≤ d.month) :
    (monthsLength d.year (d.month - 1) : Int) % 7 =
      (2 * d.month + 3 * (d.month + 1) / 5 + 2 + if isLeap d.year then 1 else 0) % 7 := by
  have hle := d.month_le
  rw [monthsLength_eq d.year (by omega)]
  generalize d.month = m at h hle ⊢
  by_cases hleap : isLeap d.year <;> interval_cases m <;> simp [hleap, List.range', commonMonth]

section

variable {m : Moment} {f : Nat}

/-- **Zeller's congruence** gives the weekday of the calendar. -/
theorem zeller_eq (hyear : m.date.year ≤ 9999) :
    zeller (fieldsOf m) = (m.date.ordinal + 1) % 7 := by
  have hpos := m.date.year_pos
  have hmonth := m.date.month_pos
  have hlast := m.date.month_le
  have hday : m.date.day ≤ 366 := Nat.le_trans (Nat.le_add_left _ _) (dayOfYear_le m.date)
  obtain ⟨y, hy⟩ : ∃ y, m.date.year = y + 1 := ⟨m.date.year - 1, by omega⟩
  unfold zeller congruence Date.ordinal Date.dayOfYear
  by_cases hearly : (fieldsOf m).tm_mon < 3
  · have hyears := yearsLength_eq y
    rw [if_pos hearly]
    dsimp only [fieldsOf] at hearly ⊢
    rw [hy, Nat.add_sub_cancel, Nat.cast_add_one, Int.add_sub_cancel]
    simp (disch := omega) only [u32_of_nonneg]
    obtain hm | hm : m.date.month = 1 ∨ m.date.month = 2 := by omega
    · rw [hm, show monthsLength (y + 1) (1 - 1) = 0 from rfl]
      omega
    · rw [hm, show monthsLength (y + 1) (2 - 1) = 31 from rfl]
      omega
  · have hmonths := monthsLength_mod (d := m.date) (by dsimp only [fieldsOf] at hearly; omega)
    have hyears := yearsLength_eq m.date.year
    have hsum : yearsLength m.date.year =
        yearsLength (m.date.year - 1) + yearLength m.date.year := by
      rw [hy, Nat.add_sub_cancel, yearsLength]
    rw [if_neg hearly]
    dsimp only [fieldsOf] at hearly ⊢
    simp (disch := omega) only [u32_of_nonneg]
    unfold yearLength at hsum
    split_ifs at hsum hmonths <;> omega

theorem dow_fieldsOf (hyear : m.date.year ≤ 9999) (hf : 1 ≤ f ∧ f ≤ 7) :
    dow f (fieldsOf m) = countedFrom f (weekday m.date.ordinal) := by
  unfold dow countedFrom weekday
  rw [zeller_eq hyear]
  dsimp only
  rw [u32_of_nonneg (by omega)]
  split <;> omega

end

/-! ### Weeks -/

/-- The days on which a week begins, among those after a given one. -/
theorem card_weekday (a k : Nat) {f : Nat} (hf : 1 ≤ f ∧ f ≤ 7) :
    ((Finset.Ioc a (a + k)).filter fun n => weekday n = f).card =
      (k + countedFrom f (weekday a) - 1) / 7 := by
  induction k with
  | zero =>
    unfold countedFrom
    simp
  | succ k ih =>
    rw [← Nat.add_assoc, ← Finset.insert_Ioc_right_eq_Ioc_add_one (Nat.le_add_right a k),
      Finset.filter_insert]
    split
    · rw [Finset.card_insert_of_notMem (by simp), ih]
      unfold countedFrom weekday at *
      omega
    · rw [ih]
      unfold countedFrom weekday at *
      omega

/-- What is assumed of PostgreSQL: dates are converted by the calendar. -/
structure Calls.Correct {F : Type} (calls : Calls F) : Prop where
  conv : calls.conv.Correct
  date2j_eq : ∀ d : Date, d.year ≤ 9999 →
    calls.date2j d.year d.month d.day = d.ordinal + 1721425

section

variable {F : Type} {calls : Calls F} {m : Moment} {f : Nat}

theorem ordinal_newYear (d : Date) : d.ordinal + 1 = (newYear d).ordinal + d.dayOfYear := by
  show yearsLength (d.year - 1) + d.dayOfYear + 1 = yearsLength (d.year - 1) + (0 + 1) + d.dayOfYear
  omega

theorem doy_fieldsOf (hcalls : calls.Correct) (hyear : m.date.year ≤ 9999) :
    doy calls (fieldsOf m) = m.date.dayOfYear := by
  have hdate := hcalls.date2j_eq m.date hyear
  have hfirst : calls.date2j m.date.year 1 1 = _ := hcalls.date2j_eq (newYear m.date) hyear
  have hordinal := ordinal_newYear m.date
  unfold doy
  dsimp only [fieldsOf]
  omega

def newYearMidnight (d : Date) : Moment := .midnight (newYear d)

theorem timestampOf_newYearMidnight (d : Date) :
    timestampOf (newYearMidnight d) = ((newYear d).ordinal - 730120) * 86400000000 := by
  rw [timestampOf_eq, Moment.microseconds, Moment.ofDay]
  dsimp only [newYearMidnight, Moment.midnight]
  omega

theorem tsqlWeek_fieldsOf (hcalls : calls.Correct) (hyear : m.date.year ≤ 9999)
    (hf : 1 ≤ f ∧ f ≤ 7) : tsqlWeek calls f (fieldsOf m) = .ok (weekOf f m.date : Int) := by
  have hfirst : calls.date2j m.date.year 1 1 = (newYear m.date).ordinal + 1721425 :=
    hcalls.date2j_eq (newYear m.date) hyear
  have hordinal := ordinal_newYear m.date
  have hpos := m.date.dayOfYear_pos
  have hle := dayOfYear_le m.date
  have hmidnight : (calls.date2j m.date.year 1 1 - 2440588 - (2451545 - 2440588)) * 86400000000 =
      timestampOf (newYearMidnight m.date) := by
    rw [timestampOf_newYearMidnight]
    omega
  have hdow : dow f (fieldsOf (newYearMidnight m.date)) =
      countedFrom f (weekday (newYear m.date).ordinal) := dow_fieldsOf hyear hf
  have hcard := card_weekday (newYear m.date).ordinal (m.date.dayOfYear - 1) hf
  rw [show (newYear m.date).ordinal + (m.date.dayOfYear - 1) = m.date.ordinal by omega] at hcard
  have hrange : 1 ≤ countedFrom f (weekday (newYear m.date).ordinal) ∧
      countedFrom f (weekday (newYear m.date).ordinal) ≤ 7 := by
    unfold countedFrom
    omega
  unfold tsqlWeek weekOf
  rw [hcard]
  dsimp only
  rw [show (fieldsOf m).tm_year = m.date.year from rfl, hmidnight,
    hcalls.conv.timestamp2tm_eq (newYearMidnight m.date) hyear]
  dsimp only
  rw [hdow, doy_fieldsOf hcalls hyear]
  simp (disch := omega) only [u32_of_nonneg]
  split <;> congr 1 <;> omega

/-- **The weekday and the week** of every date of the years 1 to 9999, for every time of the day. -/
theorem weekday_and_week (hcalls : calls.Correct) (hyear : m.date.year ≤ 9999)
    (hf : 1 ≤ f ∧ f ≤ 7) (x : F) :
    datepartInternal calls f .dow (timestampOf m) x false =
        .ok (countedFrom f (weekday m.date.ordinal) : Int) ∧
      (∀ m' : Moment, m'.date = m.date.next → m'.date.year ≤ 9999 →
        datepartInternal calls f .dow (timestampOf m') x false =
          .ok (countedFrom f (weekday m.date.ordinal) % 7 + 1 : Int)) ∧
      datepartInternal calls f .tsqlWeek (timestampOf m) x false = .ok (weekOf f m.date : Int) := by
  have hdow : ∀ m : Moment, m.date.year ≤ 9999 → datepartInternal calls f .dow (timestampOf m) x
      false = .ok (countedFrom f (weekday m.date.ordinal) : Int) := by
    intro m hyear
    simp [datepartInternal, hcalls.conv.timestamp2tm_eq m hyear, dow_fieldsOf hyear hf]
  refine ⟨hdow m hyear, fun m' hnext hyear' => ?_, ?_⟩
  · rw [hdow m' hyear', hnext, Date.ordinal_next]
    unfold countedFrom weekday
    congr 1
    omega
  · simp [datepartInternal, hcalls.conv.timestamp2tm_eq m hyear, tsqlWeek_fieldsOf hcalls hyear hf]

end

/-- The calendar in the place of PostgreSQL's functions. -/
noncomputable def calendarCalls : Calls Unit :=
  ⟨calendarConversions, fun year month day => daysInDate day month year + 1721060,
    fun _ _ _ => 0, fun _ => false, fun _ => 0, fun _ => 0⟩

/-- The first day of 2000 is a Saturday: the last day of a week that begins on a Sunday. -/
theorem weekday_and_week_epoch :
    datepartInternal calendarCalls 7 .dow (timestampOf (newYearMidnight postgresEpoch)) () false =
      .ok 7 := by
  have hcalls : calendarCalls.Correct := by
    refine ⟨calendarConversions_correct, fun d _ => ?_⟩
    have h := daysInDate_eq d
    show daysInDate d.day d.month d.year + 1721060 = _
    omega
  have h := (weekday_and_week (m := newYearMidnight postgresEpoch) (f := 7) hcalls (by decide)
    (by decide) ()).1
  rwa [show (newYearMidnight postgresEpoch).date.ordinal = 730120 from postgresEpoch_ordinal] at h

end Babelfish.Tsql.Datepart
