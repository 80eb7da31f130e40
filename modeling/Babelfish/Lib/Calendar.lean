import Mathlib.Order.Monotone.Basic

/-!
# The proleptic Gregorian calendar

Days are numbered from the first day of the year 1 on, by adding up the lengths of the years and of
the months.  The first day is a Monday, so that the Sundays are the multiples of 7.  A moment is a
day with a time of the day in microseconds; it is numbered by the microseconds that lie between it
and the start of day 0, which is a Sunday.

* `yearsLength_eq`: the number of days in the first years.
* `Date.ordinal_inj`: a day is known by its number.
* `Date.ordinal_next`: the days are numbered one after the other.
* `Moment.microseconds_inj`, `Moment.exists_microseconds`: the moments are numbered without gaps.
-/

namespace Babelfish.Lib

/-! ### Years and months -/

variable (year : Nat)

/-- Every fourth year, but of the full centuries only every fourth one. -/
def isLeap : Bool := year % 4 = 0 ∧ (year % 100 ≠ 0 ∨ year % 400 = 0)

def yearLength : Nat := if isLeap year then 366 else 365

def monthLength : Nat → Nat
  | 2 => if isLeap year then 29 else 28
  | 4 | 6 | 9 | 11 => 30
  | _ => 31

/-- The number of days in the first `n` years. -/
def yearsLength : Nat → Nat
  | 0 => 0
  | n + 1 => yearsLength n + yearLength (n + 1)

/-- The number of days in the first `n` months of a year. -/
def monthsLength (year : Nat) : Nat → Nat
  | 0 => 0
  | n + 1 => monthsLength year n + monthLength year (n + 1)

theorem isLeap_iff {year : Nat} :
    isLeap year = true ↔ year % 4 = 0 ∧ (year % 100 ≠ 0 ∨ year % 400 = 0) := by
  rw [isLeap, decide_eq_true_iff]

/-- **The number of days in the first years**, with the leap days counted by divisions. -/
theorem yearsLength_eq (n : Nat) : yearsLength n + n / 100 = 365 * n + n / 4 + n / 400 := by
  induction n with
  | zero => rfl
  | succ n ih =>
    rw [yearsLength, yearLength]
    split_ifs with hleap
    · rw [isLeap_iff] at hleap
      rcases hleap with ⟨h4, h100 | h400⟩ <;> omega
    · rw [isLeap_iff, not_and_or, not_or] at hleap
      rcases hleap with h4 | ⟨h100, h400⟩
      · have hdiv4 : (n + 1) / 4 = n / 4 := by omega
        have hdiv100 : (n + 1) / 100 = n / 100 := by omega
        have hdiv400 : (n + 1) / 400 = n / 400 := by omega
        rw [hdiv4, hdiv100, hdiv400]
        omega
      · omega

theorem monthsLength_twelve : monthsLength year 12 = yearLength year := by
  unfold yearLength
  by_cases hleap : isLeap year <;> simp [monthsLength, monthLength, hleap]

theorem monthLength_pos (year month : Nat) : 1 ≤ monthLength year month := by
  unfold monthLength
  split
  · split <;> decide
  all_goals decide

theorem monthLength_le (year month : Nat) : monthLength year month ≤ 31 := by
  unfold monthLength
  split <;> try split_ifs
  all_goals omega

theorem monthsLength_mono : Monotone (monthsLength year) :=
  monotone_nat_of_le_succ fun _ => Nat.le_add_right _ _

theorem yearsLength_mono : Monotone yearsLength :=
  monotone_nat_of_le_succ fun _ => Nat.le_add_right _ _

/-! ### Days -/

@[ext]
structure Date where
  year : Nat
  month : Nat
  day : Nat
  year_pos : 1 ≤ year
  month_pos : 1 ≤ month
  month_le : month ≤ 12
  day_pos : 1 ≤ day
  day_le : day ≤ monthLength year month
deriving DecidableEq, Repr

theorem january_le : 1 ≤ 12 := by decide

namespace Date

variable (d : Date)

def dayOfYear : Nat := monthsLength d.year (d.month - 1) + d.day

/-- The number of the day, where the first day of the year 1 has the number 1. -/
def ordinal : Nat := yearsLength (d.year - 1) + d.dayOfYear

theorem dayOfYear_pos : 1 ≤ d.dayOfYear := Nat.le_add_left_of_le d.day_pos

theorem dayOfYear_le : d.dayOfYear ≤ monthsLength d.year d.month := by
  obtain ⟨m, hm⟩ : ∃ m, d.month = m + 1 := ⟨d.month - 1, by have := d.month_pos; omega⟩
  have hday := d.day_le
  rw [dayOfYear, hm, Nat.add_sub_cancel, monthsLength]
  rw [hm] at hday
  omega

theorem dayOfYear_le_yearLength : d.dayOfYear ≤ yearLength d.year := by
  rw [← monthsLength_twelve]
  exact le_trans d.dayOfYear_le (monthsLength_mono d.year d.month_le)

theorem yearsLength_lt_ordinal : yearsLength (d.year - 1) < d.ordinal := by
  have := d.dayOfYear_pos
  unfold ordinal
  omega

theorem ordinal_le_yearsLength : d.ordinal ≤ yearsLength d.year := by
  obtain ⟨y, hy⟩ : ∃ y, d.year = y + 1 := ⟨d.year - 1, by have := d.year_pos; omega⟩
  have hday := d.dayOfYear_le_yearLength
  rw [ordinal, hy, Nat.add_sub_cancel, yearsLength]
  rw [hy] at hday
  omega

theorem ordinal_lt_of_year_lt {d e : Date} (h : d.year < e.year) : d.ordinal < e.ordinal :=
  calc d.ordinal ≤ yearsLength d.year := d.ordinal_le_yearsLength
    _ ≤ yearsLength (e.year - 1) := yearsLength_mono (by omega)
    _ < e.ordinal := e.yearsLength_lt_ordinal

theorem dayOfYear_lt_of_month_lt {d e : Date} (hyear : d.year = e.year) (h : d.month < e.month) :
    d.dayOfYear < e.dayOfYear := by
  have hle := d.dayOfYear_le
  have hmono : monthsLength d.year d.month ≤ monthsLength d.year (e.month - 1) :=
    monthsLength_mono _ (by omega)
  have hpos := e.day_pos
  rw [hyear] at hle hmono
  unfold dayOfYear at hle ⊢
  omega

/-- **A day is known by its number.** -/
theorem ordinal_inj {d e : Date} (h : d.ordinal = e.ordinal) : d = e := by
  have hyear : d.year = e.year := by
    rcases Nat.lt_trichotomy d.year e.year with hlt | heq | hgt
    · exact absurd h (ne_of_lt (ordinal_lt_of_year_lt hlt))
    · exact heq
    · exact absurd h.symm (ne_of_lt (ordinal_lt_of_year_lt hgt))
  have hday : d.dayOfYear = e.dayOfYear := by
    unfold ordinal at h
    rw [hyear] at h
    omega
  have hmonth : d.month = e.month := by
    rcases Nat.lt_trichotomy d.month e.month with hlt | heq | hgt
    · exact absurd hday (ne_of_lt (dayOfYear_lt_of_month_lt hyear hlt))
    · exact heq
    · exact absurd hday.symm (ne_of_lt (dayOfYear_lt_of_month_lt hyear.symm hgt))
  refine Date.ext hyear hmonth ?_
  unfold dayOfYear at hday
  rw [hyear, hmonth] at hday
  omega

def next : Date :=
  if hday : d.day < monthLength d.year d.month then
    ⟨d.year, d.month, d.day + 1, d.year_pos, d.month_pos, d.month_le, Nat.le_add_left _ _, hday⟩
  else if hmonth : d.month < 12 then
    ⟨d.year, d.month + 1, 1, d.year_pos, Nat.le_add_left _ _, hmonth, Nat.le_refl 1,
      monthLength_pos _ _⟩
  else
    ⟨d.year + 1, 1, 1, Nat.le_add_left _ _, Nat.le_refl 1, by decide, Nat.le_refl 1,
      monthLength_pos _ _⟩

/-- **The days are numbered one after the other.** -/
theorem ordinal_next : d.next.ordinal = d.ordinal + 1 := by
  obtain ⟨y, hy⟩ : ∃ y, d.year = y + 1 := ⟨d.year - 1, by have := d.year_pos; omega⟩
  obtain ⟨m, hm⟩ : ∃ m, d.month = m + 1 := ⟨d.month - 1, by have := d.month_pos; omega⟩
  have hle := d.day_le
  have hmonths : monthsLength d.year d.month =
      monthsLength d.year (d.month - 1) + monthLength d.year d.month := by
    rw [hm, Nat.add_sub_cancel, monthsLength]
  unfold next ordinal dayOfYear
  split
  · dsimp only
    omega
  · split
    · dsimp only
      rw [Nat.add_sub_cancel]
      omega
    · have htwelve : d.month = 12 := by have := d.month_le; omega
      have hyears := monthsLength_twelve d.year
      have hyear : yearsLength d.year = yearsLength (d.year - 1) + yearLength d.year := by
        rw [hy, Nat.add_sub_cancel, yearsLength]
      have hnone : monthsLength (d.year + 1) 0 = 0 := rfl
      rw [← htwelve] at hyears
      dsimp only
      rw [Nat.add_sub_cancel, Nat.sub_self, hnone]
      omega

theorem exists_ordinal (n : Nat) : ∃ d : Date, d.ordinal = n + 1 := by
  induction n with
  | zero => exact ⟨⟨1, 1, 1, by decide, by decide, by decide, by decide, by decide⟩, rfl⟩
  | succ n ih =>
    obtain ⟨d, hd⟩ := ih
    exact ⟨d.next, by rw [ordinal_next, hd]⟩

theorem ordinal_eq_yearsLength_iff (d : Date) :
    d.ordinal = yearsLength d.year ↔ d.month = 12 ∧ d.day = 31 := by
  let e : Date := ⟨d.year, 12, 31, d.year_pos, by decide, le_rfl, by decide, le_rfl⟩
  have hlast : e.ordinal = yearsLength d.year := by
    obtain ⟨y, hy⟩ : ∃ y, d.year = y + 1 := ⟨d.year - 1, by have := d.year_pos; omega⟩
    change yearsLength (d.year - 1) + monthsLength d.year 12 = _
    rw [monthsLength_twelve, hy]
    rfl
  constructor
  · intro h
    have heq := ordinal_inj (h.trans hlast.symm)
    exact ⟨congrArg month heq, congrArg day heq⟩
  · rintro ⟨hmonth, hday⟩
    rw [← hlast]
    exact congrArg ordinal (Date.ext rfl hmonth hday)

end Date

/-! ### Moments -/

@[ext]
structure Moment where
  date : Date
  hour : Nat
  minute : Nat
  second : Nat
  microsecond : Nat
  hour_lt : hour < 24
  minute_lt : minute < 60
  second_lt : second < 60
  microsecond_lt : microsecond < 1000000
deriving DecidableEq, Repr

namespace Moment

def midnight (date : Date) : Moment :=
  ⟨date, 0, 0, 0, 0, by decide, by decide, by decide, by decide⟩

/-- The microseconds of the day before the moment. -/
def ofDay (m : Moment) : Nat :=
  ((m.hour * 60 + m.minute) * 60 + m.second) * 1000000 + m.microsecond

def microseconds (m : Moment) : Nat := m.date.ordinal * 86400000000 + m.ofDay

theorem ofDay_lt (m : Moment) : m.ofDay < 86400000000 := by
  have := m.hour_lt
  have := m.minute_lt
  have := m.second_lt
  have := m.microsecond_lt
  unfold ofDay
  omega

/-- **A moment is known by its number.** -/
theorem microseconds_inj {m n : Moment} (h : m.microseconds = n.microseconds) : m = n := by
  have hm := m.ofDay_lt
  have hn := n.ofDay_lt
  unfold microseconds at h
  have hdate : m.date = n.date := Date.ordinal_inj (by omega)
  have hday : m.ofDay = n.ofDay := by omega
  obtain ⟨_, _, _, _, _, _, hminute, hsecond, hmicrosecond⟩ := m
  obtain ⟨_, _, _, _, _, _, hminute', hsecond', hmicrosecond'⟩ := n
  unfold ofDay at hday
  dsimp only at hday hdate
  refine Moment.ext hdate ?_ ?_ ?_ ?_
  all_goals
    dsimp only
    omega

theorem exists_microseconds {n : Nat} (h : 86400000000 ≤ n) : ∃ m : Moment, m.microseconds = n := by
  obtain ⟨d, hd⟩ := Date.exists_ordinal (n / 86400000000 - 1)
  refine ⟨⟨d, n % 86400000000 / 3600000000, n % 3600000000 / 60000000, n % 60000000 / 1000000,
    n % 1000000, by omega, by omega, by omega, by omega⟩, ?_⟩
  unfold microseconds ofDay
  dsimp only
  omega

end Moment

end Babelfish.Lib
