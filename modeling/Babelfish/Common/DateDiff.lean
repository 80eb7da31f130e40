import Babelfish.Common.Timestamp
import Babelfish.Lib.Wrap
import Mathlib.Tactic.IntervalCases

/-!
# The number of date parts between two timestamps

`timestamp_diff` and `timestamp_diff_big` count how often the given part of the date changes between
two timestamps.  Years, quarters, months, weeks and days come from the fields; the smaller parts are
added up from the days on, by multiplications and additions that report an overflow.  The two
functions differ in the width of their integers and in the name in their messages.

* `daysInDate_eq`: the days are those of the calendar.
-/

namespace Babelfish.Common

open Lib

/-! ### The functions -/

inductive DatePart where
  | year | quarter | month | week | day | doy | hour | minute | second | millisec | microsec | nano
deriving DecidableEq, Repr

/-- A value that `DecodeUnits` gives with the type `UNITS`. -/
inductive Units where
  | datepart (part : DatePart)
  | other
deriving DecidableEq, Repr

inductive DateDiffError where
  | timestampOutOfRange
  | notRecognized (lowunits function : String)
  | overflow (function : String)
deriving DecidableEq, Repr

def DateDiffError.message : DateDiffError → String
  | timestampOutOfRange => "timestamp out of range"
  | notRecognized lowunits function =>
    "'" ++ lowunits ++ "' is not a recognized " ++ function ++ " option"
  | overflow function =>
    "The " ++ function ++ " function resulted in an overflow. The number of dateparts " ++
    "separating two date/time instances is too large. Try to use " ++ function ++
    " with a less precise datepart."

variable (w : Nat)

/-- `int32_multiply_add` and `int64_multiply_add`, where `none` stands for `false`. -/
def multiplyAdd (val multiplier sum : Int) : Option Int :=
  if ¬ Fits w (val * multiplier) then none
  else if ¬ Fits w (sum + val * multiplier) then none
  else some (sum + val * multiplier)

/-- The days that `days_in_date` takes a month to have. -/
def commonMonth (i : Nat) : Int :=
  if i = 2 then 28 else if i = 4 ∨ i = 6 ∨ i = 9 ∨ i = 11 then 30 else 31

def daysInDate (day month year : Int) : Int :=
  let n1 := (List.range' 1 (month - 1).toNat).foldl (fun n1 i => n1 + commonMonth i)
    (year * 365 + day)
  let year := if month ≤ 2 then year - 1 else year
  n1 + (year.tdiv 4 - year.tdiv 100 + year.tdiv 400)

variable (tm1 tm2 : PgTm)

def dayDiff : Int :=
  daysInDate tm2.tm_mday tm2.tm_mon tm2.tm_year - daysInDate tm1.tm_mday tm1.tm_mon tm1.tm_year

def quarterDiff : Int :=
  let yeardiff := tm2.tm_year - tm1.tm_year
  let monthdiff := tm2.tm_mon - tm1.tm_mon
  let diff := (yeardiff * 12 + monthdiff).tdiv 3
  if monthdiff.tmod 3 > 0 then
    if yeardiff ≥ 0 ∧ (tm1.tm_mon - 1).tmod 3 > (tm2.tm_mon - 1).tmod 3 then diff + 1
    else if yeardiff < 0 ∧ (tm1.tm_mon - 1).tmod 3 < (tm2.tm_mon - 1).tmod 3 then diff - 1
    else diff
  else if monthdiff.tmod 3 < 0 then
    if yeardiff > 0 ∧ (tm1.tm_mon - 1).tmod 3 > (tm2.tm_mon - 1).tmod 3 then diff + 1
    else if yeardiff ≤ 0 ∧ (tm1.tm_mon - 1).tmod 3 < (tm2.tm_mon - 1).tmod 3 then diff - 1
    else diff
  else diff

/-- The case `DTK_WEEK`, from the days of the two timestamps. -/
def weekDiff (daysInTimestamp1 daysInTimestamp2 : Int) : Int :=
  let daydiff := daysInTimestamp2 - daysInTimestamp1
  let diff := daydiff.tdiv 7
  if |daydiff|.tmod 7 > (max daysInTimestamp1 daysInTimestamp2 - 1).tmod 7 then
    if daydiff < 0 then diff - 1 else diff + 1
  else diff

def hourDiff : Option Int :=
  multiplyAdd w (dayDiff tm1 tm2) 24 (tm2.tm_hour - tm1.tm_hour)

def minuteDiff : Option Int := do
  let hourdiff ← hourDiff w tm1 tm2
  multiplyAdd w hourdiff 60 (tm2.tm_min - tm1.tm_min)

def secondDiff : Option Int := do
  let minutediff ← minuteDiff w tm1 tm2
  multiplyAdd w minutediff 60 (tm2.tm_sec - tm1.tm_sec)

variable (fsec1 fsec2 : Int)

def millisecDiff : Option Int := do
  let seconddiff ← secondDiff w tm1 tm2
  multiplyAdd w seconddiff 1000 (fsec2.tdiv 1000 - fsec1.tdiv 1000)

def microsecDiff : Option Int := do
  let seconddiff ← secondDiff w tm1 tm2
  multiplyAdd w seconddiff 1000000 (fsec2 - fsec1)

/-- The case `DTK_NANO`, where the last product is not added to anything. -/
def nanoDiff : Option Int := do
  let microsecdiff ← microsecDiff w tm1 tm2 fsec1 fsec2
  if Fits w (microsecdiff * 1000) then some (microsecdiff * 1000) else none

/-- The switch over the date parts, where `none` stands for an overflow.  The operations of the
first cases are not checked; the years of a timestamp are small enough for them. -/
def partDiff : DatePart → Option Int
  | .year => some (tm2.tm_year - tm1.tm_year)
  | .quarter => some (quarterDiff tm1 tm2)
  | .month => some ((tm2.tm_year - tm1.tm_year) * 12 + (tm2.tm_mon - tm1.tm_mon))
  | .week => some (weekDiff (daysInDate tm1.tm_mday tm1.tm_mon tm1.tm_year)
      (daysInDate tm2.tm_mday tm2.tm_mon tm2.tm_year))
  | .day | .doy => some (dayDiff tm1 tm2)
  | .hour => hourDiff w tm1 tm2
  | .minute => minuteDiff w tm1 tm2
  | .second => secondDiff w tm1 tm2
  | .millisec => millisecDiff w tm1 tm2 fsec1 fsec2
  | .microsec => microsecDiff w tm1 tm2 fsec1 fsec2
  | .nano => nanoDiff w tm1 tm2 fsec1 fsec2

/-- The names of the units: `downcase_truncate_identifier` and `DecodeUnits` of PostgreSQL, where
`none` stands for a type other than `UNITS`. -/
structure UnitNames where
  downcaseTruncateIdentifier : String → String
  decodeUnits : String → Option Units

/-- The unit of a name in lower case, with those that `DecodeUnits` does not handle. -/
def UnitNames.unit (names : UnitNames) (lowunits : String) : Option Units :=
  let unit := names.decodeUnits lowunits
  let unit := if lowunits = "doy" then some (.datepart .doy) else unit
  let unit := if lowunits = "nanosecond" then some (.datepart .nano) else unit
  if lowunits = "weekday" then some (.datepart .day) else unit

/-- The body of both functions. -/
def timestampDiffWith (function : String) (conv : TimestampConversions)
    (names : UnitNames) (field : String) (timestamp1 timestamp2 : Int) :
    Except DateDiffError Int :=
  let lowunits := names.downcaseTruncateIdentifier field
  match names.unit lowunits with
  | none => .error (.notRecognized lowunits function)
  | some unit =>
    match conv.timestamp2tm timestamp1, conv.timestamp2tm timestamp2 with
    | some (tm1, fsec1), some (tm2, fsec2) =>
      match unit with
      | .other => .error (.notRecognized lowunits function)
      | .datepart part =>
        match partDiff w tm1 tm2 fsec1 fsec2 part with
        | none => .error (.overflow function)
        | some diff => .ok diff
    | _, _ => .error .timestampOutOfRange

def timestampDiff : TimestampConversions → UnitNames → String → Int → Int →
    Except DateDiffError Int :=
  timestampDiffWith 32 "datediff"

def timestampDiffBig : TimestampConversions → UnitNames → String → Int → Int →
    Except DateDiffError Int :=
  timestampDiffWith 64 "datediff_big"

/-! ### The days are those of the calendar -/

theorem monthsLength_eq (year : Nat) {n : Nat} (h : n < 12) :
    (monthsLength year n : Int) =
      (List.range' 1 n).foldl (fun n1 i => n1 + commonMonth i) 0 +
        if 2 ≤ n ∧ isLeap year then 1 else 0 := by
  by_cases hleap : isLeap year <;>
    interval_cases n <;> simp [monthsLength, monthLength, hleap, List.range', commonMonth]

theorem foldl_add_eq (f : Nat → Int) (l : List Nat) (n : Int) :
    l.foldl (fun n1 i => n1 + f i) n = n + l.foldl (fun n1 i => n1 + f i) 0 := by
  induction l generalizing n with
  | nil => simp
  | cons a l ih =>
    rw [List.foldl_cons, List.foldl_cons, ih, ih (0 + f a)]
    omega

/-- **The days are those of the calendar**, counted from another day on. -/
theorem daysInDate_eq (d : Date) : daysInDate d.day d.month d.year = d.ordinal + 365 := by
  have hyear := d.year_pos
  have hmonth := d.month_pos
  have hlength := yearsLength_eq (d.year - 1)
  have hmonths := monthsLength_eq d.year (n := d.month - 1) (by have := d.month_le; omega)
  have hn : ((d.month : Int) - 1).toNat = d.month - 1 := by omega
  unfold daysInDate Date.ordinal Date.dayOfYear
  dsimp only
  rw [foldl_add_eq, hn]
  simp only [isLeap_iff] at hmonths
  split_ifs at hmonths ⊢
  all_goals
    simp (disch := omega) only [Int.tdiv_eq_ediv_of_nonneg]
    omega

end Babelfish.Common
