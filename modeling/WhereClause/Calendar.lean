/-!
# Civil dates

Dates of the Gregorian calendar, extended to all years: the year before year 1 is year 0. A date is
counted by its `dayNumber`, the number of days since 1 January 1970, and `Date.ofDayNumber` finds
the date of a day.
-/

namespace WhereClause

/-- A day, month and year. -/
structure Date where
  year : Int
  month : Nat
  day : Nat
deriving DecidableEq, Repr

namespace Date

/-! ### Lengths of years and months -/

/-- Every fourth year has a leap day, except the centuries that 400 does not divide. -/
def IsLeapYear (year : Int) : Prop :=
  year % 4 = 0 ∧ (year % 100 ≠ 0 ∨ year % 400 = 0)

instance (year : Int) : Decidable (IsLeapYear year) :=
  inferInstanceAs (Decidable (_ ∧ _))

/-- The number of days of a month, which is counted from one. -/
def monthLength (year : Int) (month : Nat) : Nat :=
  if month = 2 then
    if IsLeapYear year then 29 else 28
  else if month = 4 ∨ month = 6 ∨ month = 9 ∨ month = 11 then 30
  else 31

/-- The month exists, and the day exists in it. -/
def Valid (d : Date) : Prop :=
  (1 ≤ d.month ∧ d.month ≤ 12) ∧ 1 ≤ d.day ∧ d.day ≤ monthLength d.year d.month

instance (d : Date) : Decidable d.Valid :=
  inferInstanceAs (Decidable (_ ∧ _ ∧ _))

/-- The date is the last day of its month. -/
def IsMonthEnd (d : Date) : Prop :=
  d.day = monthLength d.year d.month

instance (d : Date) : Decidable d.IsMonthEnd :=
  inferInstanceAs (Decidable (_ = _))

/-! ### Counting days -/

/-- The number of days from 1 January of year 1 to 1 January of the given year. -/
def daysBeforeYear (year : Int) : Int :=
  let past := year - 1
  365 * past + past / 4 - past / 100 + past / 400

/-- The number of days of the year before the first day of the given month. -/
def daysBeforeMonth (year : Int) : (month : Nat) → Nat
  | 0 | 1 => 0
  | month + 2 => daysBeforeMonth year (month + 1) + monthLength year (month + 1)

/-- The number of days from 1 January of year 1 to 1 January 1970. -/
def epoch : Int :=
  719162

/-- The number of days from 1 January 1970 to the date. -/
def dayNumber (d : Date) : Int :=
  daysBeforeYear d.year + daysBeforeMonth d.year d.month + d.day - 1 - epoch

/-- The month and the day in it, given the months still to come and the number of days from the
first of them on. -/
def locate (year : Int) : (months : List Nat) → (days : Nat) → Nat × Nat
  | [], days => (12, days + 1)
  | month :: months, days =>
    if days < monthLength year month then (month, days + 1)
    else locate year months (days - monthLength year month)

/-- The date that lies the given number of days after 1 January 1970. The calendar repeats every
400 years; inside such a cycle only the last of four centuries and the last of four years are longer
than the others of their kind. -/
def ofDayNumber (n : Int) : Date :=
  let total := n + epoch
  let inCycle := (total % 146097).toNat
  let century := min (inCycle / 36524) 3
  let inCentury := inCycle - century * 36524
  let inFour := inCentury % 1461
  let single := min (inFour / 365) 3
  let past := 100 * century + 4 * (inCentury / 1461) + single
  let year : Int := 400 * (total / 146097) + past + 1
  let (month, day) := locate year (List.range' 1 12) (inFour - single * 365)
  ⟨year, month, day⟩

end Date

end WhereClause
