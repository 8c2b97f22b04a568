import WhereClause.Calendar

/-!
# Timestamps

A timestamp is a date and a time of day as the clocks of some place show them, together with the
distance of these clocks from UTC. Two timestamps may be different and yet the same `moment`.
-/

namespace WhereClause

/-- A date and time to the nanosecond, shown by clocks at an offset from UTC. -/
structure Timestamp where
  date : Date
  hour : Nat
  minute : Nat
  second : Nat
  nanosecond : Nat
  /-- How many seconds the clocks are ahead of UTC. -/
  offset : Int
deriving DecidableEq, Repr

namespace Timestamp

/-- The hour, minute and second are those of a clock. -/
def ClockValid (t : Timestamp) : Prop :=
  t.hour ≤ 23 ∧ t.minute ≤ 59 ∧ t.second ≤ 59

instance (t : Timestamp) : Decidable t.ClockValid :=
  inferInstanceAs (Decidable (_ ∧ _ ∧ _))

/-- The number of nanoseconds since the start of 1970 in UTC. -/
def moment (t : Timestamp) : Int :=
  let inDay := t.hour * 3600 + t.minute * 60 + t.second
  (t.date.dayNumber * 86400 + inDay - t.offset) * 1000000000 + t.nanosecond

/-- The moment as the clocks at the given offset show it. -/
def ofMoment (moment offset : Int) : Timestamp :=
  let seconds := moment / 1000000000 + offset
  let inDay := (seconds % 86400).toNat
  { date := Date.ofDayNumber (seconds / 86400)
    hour := inDay / 3600
    minute := inDay / 60 % 60
    second := inDay % 60
    nanosecond := (moment % 1000000000).toNat
    offset := offset }

/-- In UTC the timestamp lies in the last second of a month, the only one after which a leap second
may be inserted. -/
def EndsMonth (t : Timestamp) : Prop :=
  let utc := ofMoment t.moment 0
  utc.date.IsMonthEnd ∧ utc.hour = 23 ∧ utc.minute = 59 ∧ utc.second = 59

instance (t : Timestamp) : Decidable t.EndsMonth :=
  inferInstanceAs (Decidable (_ ∧ _ ∧ _ ∧ _))

end Timestamp

end WhereClause
