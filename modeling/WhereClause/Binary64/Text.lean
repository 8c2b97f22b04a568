import WhereClause.Binary64

/-!
# The text of binary64 numbers

A finite number is written with the fewest significant digits that round back to it; of two such
texts with equally many digits the one nearer to the number is taken, and the greater one if both
are equally near. A `Layout` says which powers of ten are spelled out as zeros.
-/

namespace WhereClause

namespace Binary64

-- Powers of natural numbers are those of the core library, whatever else is in scope.
attribute [local instance (high)] instPowNat

/-! ### Shortest digits -/

/-- The decimal rounds to the finite magnitude `n`. -/
def readsBack (n : Nat) (d : Decimal) : Bool :=
  roundsTo d.num d.den n

/-- The magnitude as an exact decimal: a step of `2 ^ -resolution` is `5 ^ resolution` steps of
`10 ^ -resolution`. -/
def exactDecimal (n : Nat) : Decimal :=
  ⟨false, units n * 5 ^ resolution, -resolution⟩

/-- The number of places by which the point is moved to look at leading digits: more than seventy
digits of the least positive number then stand before the point. -/
def shift : Nat :=
  400

/-- The digits of the magnitude before the point once it is moved. -/
def leadingDigits (n : Nat) : Nat :=
  units n * 10 ^ shift / 2 ^ resolution

/-- The decimals with `count` significant digits just below and just above the magnitude; the lower
one may be the magnitude itself. -/
def neighbours (n count : Nat) : Decimal × Decimal :=
  let digits := leadingDigits n
  let length := (Numeral.ofNat digits).length
  let low := digits / 10 ^ (length - count)
  let exponent : Int := length - shift - count
  (⟨false, low, exponent⟩, ⟨false, low + 1, exponent⟩)

/-- The magnitude is at least as near to the decimal one step above `low` as it is to `low`. -/
def nearerAbove (n : Nat) (low : Decimal) : Bool :=
  let middle : Decimal := { low with significand := 2 * low.significand + 1 }
  middle.num * 2 ^ resolution ≤ 2 * units n * middle.den

/-- The better of the two neighbours with `count` digits among those that read back. -/
def candidate? (n count : Nat) : Option Decimal :=
  let (low, high) := neighbours n count
  match readsBack n low, readsBack n high with
  | true, true => some (if nearerAbove n low then high else low)
  | true, false => some low
  | false, true => some high
  | false, false => none

/-- The decimal with the fewest digits that reads back as the magnitude. Seventeen digits always
suffice, and in any case the exact decimal does. -/
def shortest (n : Nat) : Decimal :=
  ((List.range 17).findSome? fun i => candidate? n (i + 1)).getD (exactDecimal n)

/-! ### Layout -/

/-- Where a number is written without a power of ten: the leading digit has a place value from
`10 ^ least` on and below `10 ^ beyond`. -/
structure Layout where
  least : Int
  beyond : Int

/-- Digits with a point, the leading digit having the place value `10 ^ lead`; at least one digit
stands on each side of the point. -/
def positional (digits : List Char) (lead : Int) : List Char :=
  if lead < 0 then
    '0' :: '.' :: (List.replicate (-lead - 1).toNat '0' ++ digits)
  else
    let places := lead.toNat + 1
    let fraction := digits.drop places
    (digits.take places).rightpad places '0' ++
      '.' :: (if fraction = [] then ['0'] else fraction)

/-- Digits with a power of ten; a point follows the first digit if it is not the only one. -/
def scientific (digits : List Char) (lead : Int) : List Char :=
  let mantissa :=
    match digits with
    | d :: e :: ds => d :: '.' :: e :: ds
    | ds => ds
  mantissa ++ 'e' :: Numeral.ofInt lead

/-- A decimal other than zero as text. -/
def Layout.write (layout : Layout) (d : Decimal) : List Char :=
  let all := Numeral.ofNat d.significand
  let lead : Int := d.exponent + all.length - 1
  let digits := (all.reverse.dropWhile (· == '0')).reverse
  if layout.least ≤ lead ∧ lead < layout.beyond then
    positional digits lead
  else
    scientific digits lead

/-- The absolute value of a number that is no NaN as text. -/
def magnitudeText (layout : Layout) (n : Nat) : List Char :=
  if n = 0 then ['0', '.', '0']
  else if n < infinity then layout.write (shortest n)
  else ['i', 'n', 'f']

/-- A number as text; zero keeps its sign, and a NaN has none. -/
def text (layout : Layout) (x : Binary64) : List Char :=
  if x.IsNaN then ['N', 'a', 'N']
  else if x.negative then '-' :: magnitudeText layout x.magnitude
  else magnitudeText layout x.magnitude

end Binary64

end WhereClause
