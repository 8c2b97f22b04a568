import WhereClause.Numeral
import WhereClause.Timestamp

/-!
# Internet timestamps

The text of a timestamp after RFC 3339: `2024-01-31T10:30:00.5+02:00`. The reader takes any ASCII
character between date and time, and keeps nine digits of a fraction. It has no place for second 60,
so it reads the leap second as the last nanosecond before it.

A text is read from its front by steps, each of which takes what it needs and leaves the rest.
-/

namespace WhereClause

namespace Timestamp

/-! ### Reading -/

/-- A step of a reader: it takes characters from the front of the text, or fails. -/
abbrev Step (α : Type) :=
  StateT (List Char) Option α

namespace Step

/-- Takes the given character. -/
def char (c : Char) : Step Unit
  | [] => none
  | d :: cs => if d = c then some ((), cs) else none

/-- Takes any ASCII character. -/
def ascii : Step Unit
  | [] => none
  | d :: cs => if d.toNat < 128 then some ((), cs) else none

/-- Takes a number of exactly so many digits. -/
def digits (count : Nat) : Step Nat := fun cs =>
  let taken := cs.take count
  if taken.length = count ∧ taken.all Char.isDigit then
    some (Nat.ofDigitChars 10 taken 0, cs.drop count)
  else
    none

/-- Takes a fraction of a second, in nanoseconds: a point and at least one digit, of which those
after the ninth do not count. Without a point the fraction is zero and nothing is taken. -/
def fraction : Step Nat
  | '.' :: cs =>
    let taken := cs.takeWhile Char.isDigit
    if taken = [] then none
    else
      let nine := (taken.take 9).rightpad 9 '0'
      some (Nat.ofDigitChars 10 nine 0, cs.dropWhile Char.isDigit)
  | cs => some (0, cs)

/-- Takes hours and minutes as a number of seconds, less than a day. -/
def hoursMinutes : Step Int := do
  let hours ← digits 2
  char ':'
  let minutes ← digits 2
  if hours ≤ 23 ∧ minutes ≤ 59 then
    pure (hours * 3600 + minutes * 60 : Nat)
  else
    failure

/-- Takes an offset from UTC: the letter `Z` for none, or a sign with hours and minutes. -/
def offset : Step Int
  | 'Z' :: cs | 'z' :: cs => some (0, cs)
  | '+' :: cs => hoursMinutes cs
  | '-' :: cs => (do return -(← hoursMinutes)) cs
  | _ => none

/-- Takes a date. -/
def date : Step Date := do
  let year ← digits 4
  char '-'
  let month ← digits 2
  char '-'
  let day ← digits 2
  return ⟨year, month, day⟩

/-- Takes a timestamp as it is written, before its parts have been looked at. -/
def timestamp : Step Timestamp := do
  let date ← date
  ascii
  let hour ← digits 2
  char ':'
  let minute ← digits 2
  char ':'
  let second ← digits 2
  let nanosecond ← fraction
  let offset ← offset
  return { date, hour, minute, second, nanosecond, offset }

end Step

/-- A written timestamp as the moment it stands for: second 60 is taken for the last nanosecond of
second 59, and is refused where no leap second can be. The date and the time of day must exist. -/
def ofWritten? (t : Timestamp) : Option Timestamp :=
  if t.second = 60 then
    let last := { t with second := 59, nanosecond := 999999999 }
    if last.date.Valid ∧ last.ClockValid ∧ last.EndsMonth then some last else none
  else
    if t.date.Valid ∧ t.ClockValid then some t else none

/-- Reads a text that is a timestamp from its first character to its last. -/
def read? (cs : List Char) : Option Timestamp :=
  match Step.timestamp cs with
  | some (t, []) => ofWritten? t
  | _ => none

/-! ### Writing -/

/-- A natural number with zeros in front up to the given width. -/
def padded (width n : Nat) : List Char :=
  (Numeral.ofNat n).leftpad width '0'

/-- A fraction of a second with its point and without zeros at the end; nothing if it is zero. -/
def fractionText (nanosecond : Nat) : List Char :=
  if nanosecond = 0 then []
  else '.' :: ((padded 9 nanosecond).reverse.dropWhile (· == '0')).reverse

/-- An offset of whole minutes. -/
def offsetText (offset : Int) : List Char :=
  if offset = 0 then ['Z']
  else
    let minutes := offset.natAbs / 60
    (if offset < 0 then '-' else '+') :: padded 2 (minutes / 60) ++ ':' :: padded 2 (minutes % 60)

/-- The format has a text for the timestamp: its year has four digits, and its offset is a whole
number of minutes and less than a day. -/
def Expressible (t : Timestamp) : Prop :=
  (0 ≤ t.date.year ∧ t.date.year ≤ 9999) ∧ t.offset % 60 = 0 ∧ t.offset.natAbs < 86400

instance (t : Timestamp) : Decidable t.Expressible :=
  inferInstanceAs (Decidable (_ ∧ _ ∧ _))

/-- The text of a timestamp, if the format has one. -/
def write? (t : Timestamp) : Option (List Char) :=
  if t.Expressible then
    some (padded 4 t.date.year.natAbs ++
      '-' :: padded 2 t.date.month ++ '-' :: padded 2 t.date.day ++
      'T' :: padded 2 t.hour ++ ':' :: padded 2 t.minute ++ ':' :: padded 2 t.second ++
      fractionText t.nanosecond ++ offsetText t.offset)
  else
    none

end Timestamp

end WhereClause
