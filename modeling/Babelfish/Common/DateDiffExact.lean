import Babelfish.Common.DateDiff

/-!
# What the difference of two timestamps counts

The periods of every date part are numbered one after the other, and the functions are to return the
difference of two such numbers, or to report an overflow if it does not fit.  The computed parts are
sums of a product and a small difference.  The sum may fit when the product does not; in 32 bits the
overflow is then reported all the same.

* `quarterDiff_eq`, `weekDiff_eq`: the corrected quotients count the boundaries.
* `partDiff_eq`: what the switch computes, for every part.
* `datediff_iff`: when the functions return the difference of the numbers of the periods.
-/

namespace Babelfish.Common

open Lib

/-! ### The periods of the calendar -/

namespace DatePart

/-- The number of the period in which a moment lies.  The weeks start on a Sunday. -/
def number (m : Moment) : DatePart → Int
  | year => m.date.year
  | quarter => 4 * m.date.year + ((m.date.month : Int) - 1) / 3
  | month => 12 * m.date.year + ((m.date.month : Int) - 1)
  | week => m.microseconds / 604800000000
  | day | doy => m.microseconds / 86400000000
  | hour => m.microseconds / 3600000000
  | minute => m.microseconds / 60000000
  | second => m.microseconds / 1000000
  | millisec => m.microseconds / 1000
  | microsec => m.microseconds
  | nano => m.microseconds * 1000

def between (part : DatePart) (m1 m2 : Moment) : Int := part.number m2 - part.number m1

/-- What the two functions are to return: the number of periods if it fits. -/
def exactDiff (w : Nat) (function : String) (part : DatePart) (m1 m2 : Moment) :
    Except DateDiffError Int :=
  if Fits w (part.between m1 m2) then .ok (part.between m1 m2) else .error (.overflow function)

/-- The difference of the next coarser parts, counted in the finer ones.  A difference in the other
parts is no sum, or one whose product always fits. -/
def lastProduct (m1 m2 : Moment) : DatePart → Int
  | minute => hour.between m1 m2 * 60
  | second => minute.between m1 m2 * 60
  | millisec => second.between m1 m2 * 1000
  | microsec => second.between m1 m2 * 1000000
  | _ => 0

end DatePart

open DatePart

section Number

variable (m m1 m2 : Moment)

theorem number_day : day.number m = m.date.ordinal := by
  have := m.ofDay_lt
  simp only [number, Moment.microseconds]
  omega

theorem number_week : week.number m = (m.date.ordinal : Int) / 7 := by
  have := m.ofDay_lt
  simp only [number, Moment.microseconds]
  omega

theorem number_parts :
    hour.number m = day.number m * 24 + m.hour ∧
    minute.number m = hour.number m * 60 + m.minute ∧
    second.number m = minute.number m * 60 + m.second ∧
    millisec.number m = second.number m * 1000 + (m.microsecond : Int) / 1000 ∧
    microsec.number m = second.number m * 1000000 + m.microsecond := by
  obtain ⟨_, _, _, _, _, h1, h2, h3, h4⟩ := m
  simp only [number, Moment.microseconds, Moment.ofDay]
  omega

theorem number_day_bounds (h : m.date.year ≤ 9999) : 1 ≤ day.number m ∧ day.number m ≤ 3652059 := by
  have hlast := yearsLength_eq 9999
  have hmono := yearsLength_mono h
  have hle := m.date.ordinal_le_yearsLength
  have hlt := m.date.yearsLength_lt_ordinal
  rw [number_day]
  omega

theorem dayDiff_eq : dayDiff (fieldsOf m1) (fieldsOf m2) = day.between m1 m2 := by
  rw [between, number_day, number_day, dayDiff]
  have h1 := daysInDate_eq m1.date
  have h2 := daysInDate_eq m2.date
  simp only [fieldsOf]
  omega

end Number

/-! ### Quarters and weeks -/

/-- **The quotient of the months, corrected, counts the boundaries of the quarters.** -/
theorem quarterDiff_eq (m1 m2 : Moment) :
    quarterDiff (fieldsOf m1) (fieldsOf m2) = quarter.between m1 m2 := by
  have hpos1 := m1.date.month_pos
  have hle1 := m1.date.month_le
  have hpos2 := m2.date.month_pos
  have hle2 := m2.date.month_le
  have htmod1 : ((m1.date.month : Int) - 1).tmod 3 = ((m1.date.month : Int) - 1) % 3 :=
    Int.tmod_eq_emod_of_nonneg (by omega)
  have htmod2 : ((m2.date.month : Int) - 1).tmod 3 = ((m2.date.month : Int) - 1) % 3 :=
    Int.tmod_eq_emod_of_nonneg (by omega)
  simp only [quarterDiff, fieldsOf, between, number, htmod1, htmod2]
  obtain ⟨hmod, hmodpos, hmodneg⟩ :=
    tdiv_tmod_spec ((m2.date.month : Int) - m1.date.month) (m := 3) (by decide)
  obtain ⟨hdiv, hdivpos, hdivneg⟩ := tdiv_tmod_spec
    (((m2.date.year : Int) - m1.date.year) * 12 + (m2.date.month - m1.date.month)) (m := 3)
    (by decide)
  split_ifs <;> omega

/-- **The quotient of the days, corrected, counts the boundaries of the weeks.** -/
theorem weekDiff_eq {d1 d2 : Int} (h1 : 1 ≤ d1) (h2 : 1 ≤ d2) :
    weekDiff d1 d2 = (d2 - 1) / 7 - (d1 - 1) / 7 := by
  have hmax : (max d1 d2 - 1).tmod 7 = (max d1 d2 - 1) % 7 :=
    Int.tmod_eq_emod_of_nonneg (by omega)
  have habs : |d2 - d1|.tmod 7 = |d2 - d1| % 7 := Int.tmod_eq_emod_of_nonneg (abs_nonneg _)
  obtain ⟨hdiv, hpos, hneg⟩ := tdiv_tmod_spec (d2 - d1) (m := 7) (by decide)
  simp only [weekDiff, hmax, habs]
  rcases Int.le_total d1 d2 with hle | hle
  · rw [abs_of_nonneg (by omega), max_eq_right hle, if_neg (c := d2 - d1 < 0) (by omega)]
    split <;> omega
  · rw [abs_of_nonpos (by omega), max_eq_left hle]
    split
    · rw [if_pos (by omega)]
      omega
    · omega

/-! ### The checked products -/

variable {w : Nat} {part : DatePart}

theorem fits_of_bounds (hw : w = 32 ∨ w = 64) {x : Int} (h : -2000000000 ≤ x ∧ x ≤ 2000000000) :
    Fits w x := by
  rcases hw with rfl | rfl <;> simp only [fits_32, fits_64] <;> omega

theorem multiplyAdd_eq (val k r : Int) :
    multiplyAdd w val k r =
      if Fits w (val * k) ∧ Fits w (val * k + r) then some (val * k + r) else none := by
  unfold multiplyAdd
  rw [Int.add_comm r]
  by_cases hproduct : Fits w (val * k) <;> by_cases hsum : Fits w (val * k + r) <;>
    simp [hproduct, hsum]

/-- A step of the chain.  The steps before it report no overflow when its product fits. -/
theorem bind_multiplyAdd {x : Option Int} {P : Prop} [Decidable P] {a k : Int} (r : Int)
    (hx : x = if P then some a else none) (hP : Fits w (a * k) → P) :
    (x >>= fun val => multiplyAdd w val k r) =
      if Fits w (a * k) ∧ Fits w (a * k + r) then some (a * k + r) else none := by
  by_cases hp : P
  · rw [hx, if_pos hp, Option.bind_eq_bind, Option.bind_some, multiplyAdd_eq]
  · rw [hx, if_neg hp, if_neg (fun h => hp (hP h.1)), Option.bind_eq_bind, Option.bind_none]

theorem fits_of_fits_mul (hw : w = 32 ∨ w = 64) {a r k : Int} (hk : 60 ≤ k)
    (hr : -1000000 ≤ r ∧ r ≤ 1000000) (h : Fits w ((a + r) * k)) : Fits w a ∧ Fits w (a + r) := by
  have hsixty : (0 ≤ a + r → (a + r) * 60 ≤ (a + r) * k) ∧
      (a + r ≤ 0 → (a + r) * k ≤ (a + r) * 60) :=
    ⟨fun hpos => Int.mul_le_mul_of_nonneg_left hk hpos,
      fun hneg => Int.mul_le_mul_of_nonpos_left hneg hk⟩
  generalize (a + r) * k = product at h hsixty
  rcases hw with rfl | rfl <;> simp only [fits_32, fits_64] at h ⊢ <;> omega

section Chain

variable (m1 m2 : Moment)

theorem between_hour : hour.between m1 m2 =
    day.between m1 m2 * 24 + ((m2.hour : Int) - m1.hour) := by
  have hparts := And.intro (number_parts m1) (number_parts m2)
  unfold between
  omega

theorem between_minute : minute.between m1 m2 =
    hour.between m1 m2 * 60 + ((m2.minute : Int) - m1.minute) := by
  have hparts := And.intro (number_parts m1) (number_parts m2)
  unfold between
  omega

theorem between_second : second.between m1 m2 =
    minute.between m1 m2 * 60 + ((m2.second : Int) - m1.second) := by
  have hparts := And.intro (number_parts m1) (number_parts m2)
  unfold between
  omega

theorem between_millisec : millisec.between m1 m2 =
    second.between m1 m2 * 1000 +
      ((m2.microsecond : Int).tdiv 1000 - (m1.microsecond : Int).tdiv 1000) := by
  have hparts := And.intro (number_parts m1) (number_parts m2)
  unfold between
  rw [Int.tdiv_eq_ediv_of_nonneg (by omega), Int.tdiv_eq_ediv_of_nonneg (by omega)]
  omega

theorem between_microsec : microsec.between m1 m2 =
    second.between m1 m2 * 1000000 + ((m2.microsecond : Int) - m1.microsecond) := by
  have hparts := And.intro (number_parts m1) (number_parts m2)
  unfold between
  omega

theorem between_nano : nano.between m1 m2 = microsec.between m1 m2 * 1000 := by
  simp only [between, number]
  omega

theorem between_day_bounds (h1 : m1.date.year ≤ 9999) (h2 : m2.date.year ≤ 9999) :
    -3652058 ≤ day.between m1 m2 ∧ day.between m1 m2 ≤ 3652058 := by
  have hbounds1 := number_day_bounds m1 h1
  have hbounds2 := number_day_bounds m2 h2
  unfold between
  omega

variable {w : Nat} (hw : w = 32 ∨ w = 64)

include hw

variable (h1 : m1.date.year ≤ 9999) (h2 : m2.date.year ≤ 9999)

include h1 h2

theorem hourDiff_eq : hourDiff w (fieldsOf m1) (fieldsOf m2) = some (hour.between m1 m2) := by
  have hday := between_day_bounds m1 m2 h1 h2
  have hhour1 := m1.hour_lt
  have hhour2 := m2.hour_lt
  rw [hourDiff, dayDiff_eq, multiplyAdd_eq, between_hour, fieldsOf_tm_hour, fieldsOf_tm_hour]
  exact if_pos ⟨fits_of_bounds hw (by omega), fits_of_bounds hw (by omega)⟩

theorem minuteDiff_eq : minuteDiff w (fieldsOf m1) (fieldsOf m2) =
      if Fits w (hour.between m1 m2 * 60) ∧ Fits w (minute.between m1 m2)
      then some (minute.between m1 m2) else none := by
  rw [minuteDiff, hourDiff_eq m1 m2 hw h1 h2, between_minute, fieldsOf_tm_min, fieldsOf_tm_min,
    Option.bind_eq_bind, Option.bind_some, multiplyAdd_eq]

theorem secondDiff_eq : secondDiff w (fieldsOf m1) (fieldsOf m2) =
      if Fits w (minute.between m1 m2 * 60) ∧ Fits w (second.between m1 m2)
      then some (second.between m1 m2) else none := by
  have hminute1 := m1.minute_lt
  have hminute2 := m2.minute_lt
  rw [secondDiff, between_second, fieldsOf_tm_sec, fieldsOf_tm_sec]
  apply bind_multiplyAdd _ (minuteDiff_eq m1 m2 hw h1 h2)
  intro h
  rw [between_minute] at h ⊢
  exact fits_of_fits_mul hw (by omega) (by omega) h

theorem bind_secondDiff {k : Int} (hk : 60 ≤ k) (r : Int) :
    (secondDiff w (fieldsOf m1) (fieldsOf m2) >>= fun val => multiplyAdd w val k r) =
      if Fits w (second.between m1 m2 * k) ∧ Fits w (second.between m1 m2 * k + r)
      then some (second.between m1 m2 * k + r) else none := by
  have hsecond1 := m1.second_lt
  have hsecond2 := m2.second_lt
  apply bind_multiplyAdd _ (secondDiff_eq m1 m2 hw h1 h2)
  intro h
  rw [between_second] at h ⊢
  exact fits_of_fits_mul hw hk (by omega) h

theorem millisecDiff_eq : millisecDiff w (fieldsOf m1) (fieldsOf m2) m1.microsecond m2.microsecond =
      if Fits w (second.between m1 m2 * 1000) ∧ Fits w (millisec.between m1 m2)
      then some (millisec.between m1 m2) else none := by
  rw [between_millisec, millisecDiff, bind_secondDiff m1 m2 hw h1 h2 (by omega)]

theorem microsecDiff_eq : microsecDiff w (fieldsOf m1) (fieldsOf m2) m1.microsecond m2.microsecond =
      if Fits w (second.between m1 m2 * 1000000) ∧ Fits w (microsec.between m1 m2)
      then some (microsec.between m1 m2) else none := by
  rw [between_microsec, microsecDiff, bind_secondDiff m1 m2 hw h1 h2 (by omega)]

/-- The nanoseconds are exact: no product before the last one is as large. -/
theorem nanoDiff_eq : nanoDiff w (fieldsOf m1) (fieldsOf m2) m1.microsecond m2.microsecond =
      if Fits w (nano.between m1 m2) then some (nano.between m1 m2)
      else none := by
  have hmicrosecond1 := m1.microsecond_lt
  have hmicrosecond2 := m2.microsecond_lt
  rw [nanoDiff, microsecDiff_eq m1 m2 hw h1 h2, between_nano]
  by_cases h : Fits w (microsec.between m1 m2 * 1000)
  · have hfits : Fits w (second.between m1 m2 * 1000000) ∧
        Fits w (microsec.between m1 m2) := by
      rw [between_microsec] at h ⊢
      exact fits_of_fits_mul hw (by omega) (by omega) h
    rw [if_pos hfits, Option.bind_eq_bind, Option.bind_some]
  · rw [if_neg h]
    split
    · rw [Option.bind_eq_bind, Option.bind_some, if_neg h]
    · rw [Option.bind_eq_bind, Option.bind_none]

end Chain

/-! ### The two functions -/

theorem some_eq_of_bounds (hw : w = 32 ∨ w = 64) {x b : Int} (heq : x = b)
    (h : -2000000000 ≤ b ∧ b ≤ 2000000000) :
    some x = if Fits w 0 ∧ Fits w b then some b else none := by
  rw [if_pos ⟨fits_of_bounds hw (by omega), fits_of_bounds hw h⟩, heq]

section Functions

variable {m1 m2 : Moment} (h1 : m1.date.year ≤ 9999) (h2 : m2.date.year ≤ 9999)

include h1 h2

theorem fits_64_lastProduct (part : DatePart) : Fits 64 (part.lastProduct m1 m2) := by
  have hday := between_day_bounds m1 m2 h1 h2
  have hhour := between_hour m1 m2
  have hminute := between_minute m1 m2
  have hsecond := between_second m1 m2
  have hhours := And.intro m1.hour_lt m2.hour_lt
  have hminutes := And.intro m1.minute_lt m2.minute_lt
  have hseconds := And.intro m1.second_lt m2.second_lt
  rw [fits_64]
  cases part
  all_goals simp only [lastProduct]
  all_goals omega

variable {w : Nat} (hw : w = 32 ∨ w = 64)

include hw

/-- **What the switch computes**: the number of periods between the moments, unless it or the last
product does not fit. -/
theorem partDiff_eq (part : DatePart) :
    partDiff w (fieldsOf m1) (fieldsOf m2) m1.microsecond m2.microsecond part =
      if Fits w (part.lastProduct m1 m2) ∧ Fits w (part.between m1 m2)
      then some (part.between m1 m2) else none := by
  have hday := between_day_bounds m1 m2 h1 h2
  have hmonth1 := m1.date.month_le
  have hmonth2 := m2.date.month_le
  cases part with
  | year =>
    apply some_eq_of_bounds hw (b := year.between m1 m2) rfl
    simp only [between, number]
    omega
  | quarter =>
    apply some_eq_of_bounds hw (quarterDiff_eq m1 m2)
    simp only [between, number]
    omega
  | month =>
    apply some_eq_of_bounds hw
    · simp only [between, number, fieldsOf]
      omega
    · simp only [between, number]
      omega
  | week =>
    have hdays1 := daysInDate_eq m1.date
    have hdays2 := daysInDate_eq m2.date
    simp only [between, number_day] at hday
    apply some_eq_of_bounds hw
    · rw [weekDiff_eq, between, number_week, number_week]
      all_goals simp only [fieldsOf]; omega
    · rw [between, number_week, number_week]
      omega
  | day => exact some_eq_of_bounds hw (dayDiff_eq m1 m2) (by omega)
  | doy =>
    have hdoy : doy.between m1 m2 = day.between m1 m2 := rfl
    exact some_eq_of_bounds hw (dayDiff_eq m1 m2) (by omega)
  | hour =>
    have hhour1 := m1.hour_lt
    have hhour2 := m2.hour_lt
    have hhour := between_hour m1 m2
    rw [partDiff, hourDiff_eq m1 m2 hw h1 h2]
    exact some_eq_of_bounds hw rfl (by omega)
  | minute => exact minuteDiff_eq m1 m2 hw h1 h2
  | second => exact secondDiff_eq m1 m2 hw h1 h2
  | millisec => exact millisecDiff_eq m1 m2 hw h1 h2
  | microsec => exact microsecDiff_eq m1 m2 hw h1 h2
  | nano =>
    have hzero : Fits w 0 := fits_of_bounds hw (by omega)
    rw [partDiff, nanoDiff_eq m1 m2 hw h1 h2]
    exact if_congr (and_iff_right hzero).symm rfl rfl

theorem timestampDiffWith_eq (function : String) {conv : TimestampConversions}
    (hconv : conv.Correct) {names : UnitNames} {field : String}
    (hunit : names.unit (names.downcaseTruncateIdentifier field) = some (.datepart part)) :
    timestampDiffWith w function conv names field (timestampOf m1) (timestampOf m2) =
      if Fits w (part.lastProduct m1 m2) then part.exactDiff w function m1 m2
      else .error (.overflow function) := by
  unfold timestampDiffWith exactDiff
  dsimp only
  rw [hunit, hconv.timestamp2tm_eq m1 h1, hconv.timestamp2tm_eq m2 h2]
  dsimp only
  rw [partDiff_eq h1 h2 hw]
  by_cases hproduct : Fits w (part.lastProduct m1 m2) <;>
    by_cases hfits : Fits w (part.between m1 m2) <;> simp [hproduct, hfits]

end Functions

theorem eq_of_exactDiff {function : String} {m1 m2 : Moment} {d : Int}
    (h : part.exactDiff w function m1 m2 = .ok d) : d = part.between m1 m2 := by
  unfold exactDiff at h
  split at h
  · exact (Except.ok.inj h).symm
  · cases h

/-- **When the functions count the periods**: both return the number of periods between the two
moments, report an overflow exactly when it does not fit and agree when both return, if and only if
the last product fits in 32 bits whenever the number of periods does. -/
theorem datediff_iff {conv : TimestampConversions} (hconv : conv.Correct) {names : UnitNames}
    {field : String} {part : DatePart}
    (hunit : names.unit (names.downcaseTruncateIdentifier field) = some (.datepart part))
    {m1 m2 : Moment} (h1 : m1.date.year ≤ 9999) (h2 : m2.date.year ≤ 9999) :
    (timestampDiff conv names field (timestampOf m1) (timestampOf m2) =
        part.exactDiff 32 "datediff" m1 m2 ∧
      timestampDiffBig conv names field (timestampOf m1) (timestampOf m2) =
        part.exactDiff 64 "datediff_big" m1 m2 ∧
      ∀ d e, timestampDiff conv names field (timestampOf m1) (timestampOf m2) = .ok d →
        timestampDiffBig conv names field (timestampOf m1) (timestampOf m2) = .ok e → d = e) ↔
    (Fits 32 (part.between m1 m2) → Fits 32 (part.lastProduct m1 m2)) := by
  unfold timestampDiff timestampDiffBig
  rw [timestampDiffWith_eq h1 h2 (.inl rfl) _ hconv hunit,
    timestampDiffWith_eq h1 h2 (.inr rfl) _ hconv hunit, if_pos (fits_64_lastProduct h1 h2 part)]
  constructor
  · rintro ⟨hdiff, -, -⟩ hfits
    by_contra hproduct
    rw [if_neg hproduct, DatePart.exactDiff, if_pos hfits] at hdiff
    cases hdiff
  · intro h
    have heq : (if Fits 32 (part.lastProduct m1 m2) then part.exactDiff 32 "datediff" m1 m2
        else .error (.overflow "datediff")) = part.exactDiff 32 "datediff" m1 m2 := by
      split_ifs with hproduct
      · rfl
      · rw [DatePart.exactDiff, if_neg (fun hfits => hproduct (h hfits))]
    refine ⟨heq, rfl, ?_⟩
    rw [heq]
    intro d e hd he
    rw [eq_of_exactDiff hd, eq_of_exactDiff he]

/-- The start of 2000 and 999 milliseconds. -/
def shortlyAfterEpoch : Moment :=
  { Moment.midnight postgresEpoch with microsecond := 999000, microsecond_lt := by decide }

/-- 2147460 seconds after the start of 2000, and up to 59 more. -/
def afterTwoMillionSeconds (second : Fin 60) : Moment :=
  ⟨⟨2000, 1, 25, postgresEpoch.year_pos, Nat.one_pos, january_le, by decide, by decide⟩, 20, 31,
    second, 0, by decide, by decide, second.isLt, (Moment.midnight postgresEpoch).microsecond_lt⟩

def millisecondNames : UnitNames :=
  ⟨id, fun lowunits => if lowunits = "millisecond" then some (.datepart .millisec) else none⟩

theorem millisecondNames_unit : millisecondNames.unit
    (millisecondNames.downcaseTruncateIdentifier "millisecond") = some (.datepart .millisec) := by
  decide

/-- A second less is returned. -/
theorem datediff_iff_milliseconds :
    timestampDiff calendarConversions millisecondNames "millisecond"
      (timestampOf shortlyAfterEpoch) (timestampOf (afterTwoMillionSeconds 23)) =
        .ok 2147482001 :=
  ((datediff_iff calendarConversions_correct millisecondNames_unit (by decide) (by decide)).mpr
    (by decide +kernel)).1.trans (by decide +kernel)

/-- Between the two moments lie 2147483001 milliseconds, which fits in 32 bits, and the function
reports an overflow: the 2147484 seconds are 2147484000 milliseconds. -/
theorem milliseconds_overflow :
    DatePart.millisec.exactDiff 32 "datediff" shortlyAfterEpoch (afterTwoMillionSeconds 24) =
      .ok 2147483001 ∧
    timestampDiff calendarConversions millisecondNames "millisecond"
      (timestampOf shortlyAfterEpoch) (timestampOf (afterTwoMillionSeconds 24)) =
        .error (.overflow "datediff") := by
  refine ⟨by decide +kernel, ?_⟩
  rw [timestampDiff, timestampDiffWith_eq (by decide) (by decide) (.inl rfl) _
    calendarConversions_correct millisecondNames_unit, if_neg (by decide +kernel)]

end Babelfish.Common
