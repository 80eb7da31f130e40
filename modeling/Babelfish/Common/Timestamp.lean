import Mathlib
import Babelfish.Lib.Calendar

/-!
# Timestamps and their fields

A timestamp counts the microseconds from the start of the year 2000 on.  PostgreSQL converts it to
the fields of a `struct pg_tm` and back; both conversions are parameters of the model, and what is
assumed of them is that they agree with the calendar in the years 1 to 9999.

* `TimestampConversions.Correct`: the assumption.
* `calendarConversions_correct`: it can be met.
-/

namespace Babelfish.Common

open Lib

/-- The fields of `struct pg_tm` that the date functions use. -/
structure PgTm where
  tm_sec : Int
  tm_min : Int
  tm_hour : Int
  tm_mday : Int
  tm_mon : Int
  tm_year : Int
deriving DecidableEq, Repr

/-- `timestamp2tm` and `tm2timestamp` of PostgreSQL, where `none` stands for a result other than
0.  The number next to the fields is `fsec`, in microseconds. -/
structure TimestampConversions where
  timestamp2tm : Int → Option (PgTm × Int)
  tm2timestamp : PgTm → Int → Option Int

/-- The first day of 2000. -/
def postgresEpoch : Date :=
  ⟨2000, 1, 1, by decide, Nat.one_pos, january_le, Nat.one_pos, by decide⟩

def timestampOf (m : Moment) : Int := m.microseconds - postgresEpoch.ordinal * 86400000000

@[simps]
def fieldsOf (m : Moment) : PgTm :=
  ⟨m.second, m.minute, m.hour, m.date.day, m.date.month, m.date.year⟩

/-- The conversions agree with the calendar. -/
structure TimestampConversions.Correct (conv : TimestampConversions) : Prop where
  timestamp2tm_eq : ∀ m : Moment, m.date.year ≤ 9999 →
    conv.timestamp2tm (timestampOf m) = some (fieldsOf m, (m.microsecond : Int))
  tm2timestamp_eq : ∀ m : Moment, m.date.year ≤ 9999 →
    conv.tm2timestamp (fieldsOf m) m.microsecond = some (timestampOf m)

theorem postgresEpoch_ordinal : postgresEpoch.ordinal = 730120 := by
  have hyear : postgresEpoch.year = 2000 := rfl
  have hday : postgresEpoch.dayOfYear = 1 := rfl
  have h := yearsLength_eq (postgresEpoch.year - 1)
  rw [Date.ordinal, hday]
  omega

theorem timestampOf_eq (m : Moment) : timestampOf m = m.microseconds - 63082368000000000 := by
  have := postgresEpoch_ordinal
  unfold timestampOf
  omega

theorem timestampOf_injective : Function.Injective timestampOf := by
  intro m n h
  apply Moment.microseconds_inj
  unfold timestampOf at h
  omega

theorem fieldsOf_injective :
    Function.Injective fun m : Moment => (fieldsOf m, (m.microsecond : Int)) := by
  intro m n h
  obtain ⟨hfields, hmicrosecond⟩ := Prod.mk.inj h
  obtain ⟨hsecond, hminute, hhour, hday, hmonth, hyear⟩ := PgTm.mk.inj hfields
  refine Moment.ext (Date.ext ?_ ?_ ?_) ?_ ?_ ?_ ?_
  all_goals omega

instance : Nonempty Moment :=
  ⟨⟨postgresEpoch, 0, 0, 0, 0, by decide, by decide, by decide, by decide⟩⟩

/-- The conversions that look for the moment. -/
noncomputable def calendarConversions : TimestampConversions :=
  have : Nonempty Moment := ⟨⟨postgresEpoch, 0, 0, 0, 0, by decide, by decide, by decide,
    by decide⟩⟩
  { timestamp2tm := fun t =>
      some (fieldsOf (Function.invFun timestampOf t), (Function.invFun timestampOf t).microsecond)
    tm2timestamp := fun tm fsec => some (timestampOf
      (Function.invFun (fun m : Moment => (fieldsOf m, (m.microsecond : Int))) (tm, fsec))) }

theorem calendarConversions_correct : calendarConversions.Correct := by
  refine ⟨fun m _ => ?_, fun m _ => ?_⟩
  · simp only [calendarConversions, Function.leftInverse_invFun timestampOf_injective m]
  · simp only [calendarConversions, Function.leftInverse_invFun fieldsOf_injective m]

end Babelfish.Common
