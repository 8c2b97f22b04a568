/-!
# Numbers as they are written

A `Numeral` is a number as a reader meets it: an optional sign, digits, optionally a point with
further digits, and optionally a power of ten. Reading keeps the digits apart, because the users of
numerals differ in what they allow (a leading plus, zeros in front, a point at the end) and in what
they make of the digits. The `Decimal` of a numeral is its exact value.
-/

namespace WhereClause

/-- A sign in front of digits. -/
inductive Sign
  | plus
  | minus
deriving DecidableEq, Repr

/-- The exact number `± significand · 10 ^ exponent`. -/
structure Decimal where
  negative : Bool
  significand : Nat
  exponent : Int
deriving DecidableEq, Repr

namespace Decimal

-- Powers of natural numbers are those of the core library, whatever else is in scope.
attribute [local instance (high)] instPowNat

/-- The numerator of the absolute value as a fraction over `Decimal.den`. -/
def num (d : Decimal) : Nat :=
  d.significand * 10 ^ d.exponent.toNat

/-- The denominator of the absolute value as a fraction, a power of ten. -/
def den (d : Decimal) : Nat :=
  10 ^ (-d.exponent).toNat

end Decimal

/-- A written number. Its digits are decimal digit characters. -/
structure Numeral where
  sign : Option Sign
  /-- The digits before the point. -/
  whole : List Char
  /-- The digits after the point, if there is a point. -/
  fraction : Option (List Char)
  /-- The power of ten, if one is written. -/
  exponent : Option Int
deriving DecidableEq, Repr

namespace Numeral

/-! ### Reading -/

/-- The sign that a text starts with, if any, and what follows it. -/
def readSign : List Char → Option Sign × List Char
  | '+' :: cs => (some .plus, cs)
  | '-' :: cs => (some .minus, cs)
  | cs => (none, cs)

/-- The digits that follow a point at the start of a text, if there is one, and what comes after. -/
def readFraction : List Char → Option (List Char) × List Char
  | '.' :: cs => (some (cs.takeWhile Char.isDigit), cs.dropWhile Char.isDigit)
  | cs => (none, cs)

/-- An integer with the given sign. -/
def signed (sign : Option Sign) (n : Nat) : Int :=
  if sign = some .minus then -n else n

/-- A text that is empty or a power of ten and nothing else: `e` or `E`, perhaps a sign, and at
least one digit. -/
def readExponent? : List Char → Option (Option Int)
  | [] => some none
  | c :: cs =>
    let (sign, digits) := readSign cs
    if (c = 'e' ∨ c = 'E') ∧ digits ≠ [] ∧ digits.all Char.isDigit then
      some (some (signed sign (Nat.ofDigitChars 10 digits 0)))
    else
      none

/-- The digits before and after the point. -/
def digits (n : Numeral) : List Char :=
  n.whole ++ n.fraction.getD []

/-- Reads a text that is a number from its first character to its last and has a digit before or
after the point. -/
def read? (cs : List Char) : Option Numeral := do
  let (sign, cs) := readSign cs
  let whole := cs.takeWhile Char.isDigit
  let (fraction, cs) := readFraction (cs.dropWhile Char.isDigit)
  let exponent ← readExponent? cs
  let n : Numeral := ⟨sign, whole, fraction, exponent⟩
  if n.digits = [] then none else some n

/-! ### Value -/

/-- The numeral has neither a point nor a power of ten. -/
def IsWhole (n : Numeral) : Prop :=
  n.fraction = none ∧ n.exponent = none

instance (n : Numeral) : Decidable n.IsWhole :=
  inferInstanceAs (Decidable (_ ∧ _))

/-- The integer that the sign and the digits before the point denote. -/
def wholePart (n : Numeral) : Int :=
  signed n.sign (Nat.ofDigitChars 10 n.whole 0)

/-- The exact value: the digits as one number, scaled down by one place for each digit after the
point. -/
def toDecimal (n : Numeral) : Decimal where
  negative := n.sign = some .minus
  significand := Nat.ofDigitChars 10 n.digits 0
  exponent := n.exponent.getD 0 - (n.fraction.getD []).length

/-! ### Writing -/

/-- The decimal digits of a natural number, without zeros in front. -/
def ofNat (n : Nat) : List Char :=
  Nat.toDigits 10 n

/-- The decimal digits of an integer, after a minus sign if it is negative. -/
def ofInt (i : Int) : List Char :=
  if i < 0 then '-' :: ofNat i.natAbs else ofNat i.natAbs

end Numeral

end WhereClause
