import WhereClause.Numeral

/-!
# Binary64 numbers

A binary64 number is its sign and its `magnitude`, the 63 bits below the sign bit read as a natural
number. Magnitudes are ordered as the absolute values they stand for, and neighbouring finite
numbers have neighbouring magnitudes. Every finite absolute value is a whole number of steps of the
least positive one, `2 ^ -Binary64.resolution`; `Binary64.units` counts the steps.

Rounding is stated on these counts alone, so all arithmetic here is exact arithmetic of natural
numbers: `Binary64.nearest num den` is the magnitude nearest to `num / den`, the even one of two
that are equally near, and infinity from halfway beyond the greatest finite number.
-/

namespace WhereClause

-- Powers of natural numbers are those of the core library, whatever else is in scope.
attribute [local instance (high)] instPowNat

/-- The number of bits below the sign bit. -/
def Binary64.magnitudeBits : Nat :=
  63

/-- A binary64 number, the sign and payload of a NaN included. -/
structure Binary64 where
  negative : Bool
  /-- The exponent field and the fraction field together. -/
  magnitude : Nat
  magnitude_lt : magnitude < 2 ^ Binary64.magnitudeBits
deriving DecidableEq, Repr

namespace Binary64

/-! ### Bits -/

/-- The number of bits of the fraction field. -/
def fractionBits : Nat :=
  52

/-- The number of binary places of the least positive number. -/
def resolution : Nat :=
  1074

/-- The number with the given 64 bits. -/
def ofBits (bits : UInt64) : Binary64 where
  negative := 2 ^ magnitudeBits ≤ bits.toNat
  magnitude := bits.toNat % 2 ^ magnitudeBits
  magnitude_lt := Nat.mod_lt _ (by decide)

/-- The 64 bits of a number, read as a natural number. -/
def bits (x : Binary64) : Nat :=
  if x.negative then 2 ^ magnitudeBits + x.magnitude else x.magnitude

/-- The magnitude of the infinities. -/
def infinity : Nat :=
  2047 * 2 ^ fractionBits

/-- The number is not a number: its magnitude is beyond that of the infinities. -/
def IsNaN (x : Binary64) : Prop :=
  infinity < x.magnitude

instance (x : Binary64) : Decidable x.IsNaN :=
  inferInstanceAs (Decidable (_ < _))

/-- The number is neither infinite nor a NaN. -/
def IsFinite (x : Binary64) : Prop :=
  x.magnitude < infinity

instance (x : Binary64) : Decidable x.IsFinite :=
  inferInstanceAs (Decidable (_ < _))

/-- Numerical equality: a NaN equals nothing, and the two zeros are equal. -/
def NumEq (x y : Binary64) : Prop :=
  ¬x.IsNaN ∧ ¬y.IsNaN ∧ (x = y ∨ x.magnitude = 0 ∧ y.magnitude = 0)

instance (x y : Binary64) : Decidable (x.NumEq y) :=
  inferInstanceAs (Decidable (_ ∧ _ ∧ _))

/-! ### Values in units of the least positive number -/

/-- The absolute value of a finite magnitude, counted in steps of the least positive number. The
magnitude of infinity continues the scale, with `2 ^ 1024`. -/
def units (n : Nat) : Nat :=
  if n < 2 ^ fractionBits then n
  else (2 ^ fractionBits + n % 2 ^ fractionBits) * 2 ^ (n / 2 ^ fractionBits - 1)

/-! ### Rounding -/

/-- The number of values that satisfy `p` among the first `2 ^ k` from `base` on, added to `base`,
for a `p` that never holds again once it has failed: by halving the range. -/
def firstFailure (p : Nat → Bool) : (k base : Nat) → Nat
  | 0, base => base
  | k + 1, base =>
    if p (base + 2 ^ k - 1) then firstFailure p k (base + 2 ^ k) else firstFailure p k base

/-- The search stays in its range. -/
theorem firstFailure_lt (p : Nat → Bool) (k base : Nat) :
    firstFailure p k base < base + 2 ^ k := by
  induction k generalizing base with
  | zero => simp [firstFailure]
  | succ k ih =>
    have hpos := Nat.two_pow_pos k
    rw [firstFailure]
    split
    · have := ih (base + 2 ^ k)
      omega
    · have := ih base
      omega

/-- The value `scaled / (den · 2 ^ (resolution + 1))` rounds to a magnitude above the finite
magnitude `n`: it is beyond the middle between `n` and its successor, or on the middle with `n`
odd. -/
def roundsAbove (scaled den n : Nat) : Bool :=
  let middle := (units n + units (n + 1)) * den
  n < infinity && (middle < scaled || middle == scaled && n % 2 == 1)

/-- The magnitude nearest to `num / den`. -/
def nearest (num den : Nat) : Nat :=
  firstFailure (roundsAbove (num * 2 ^ (resolution + 1)) den) magnitudeBits 0

/-- The magnitude nearest to `num / den` is `n`: the value does not round above `n`, but above the
predecessor of `n` if there is one. -/
def roundsTo (num den n : Nat) : Bool :=
  let scaled := num * 2 ^ (resolution + 1)
  !roundsAbove scaled den n && (n == 0 || roundsAbove scaled den (n - 1))

/-- The nearest magnitude fits below the sign bit. -/
theorem nearest_lt (num den : Nat) : nearest num den < 2 ^ magnitudeBits := by
  simpa [nearest] using
    firstFailure_lt (roundsAbove (num * 2 ^ (resolution + 1)) den) magnitudeBits 0

/-! ### Conversions -/

/-- The integer, rounded to the nearest number. -/
def ofInt (i : Int) : Binary64 where
  negative := i < 0
  magnitude := nearest i.natAbs 1
  magnitude_lt := nearest_lt _ _

/-- The magnitude nearest to the absolute value of a decimal. Powers far out of range are decided
without being computed: what is at least `10 ^ 401` is infinite, and what is less than `2 ^ -1099`
is zero. -/
def nearestDecimal (d : Decimal) : Nat :=
  if d.significand = 0 then 0
  else if 400 < d.exponent then infinity
  else if d.significand.log2 + 1100 < -3 * d.exponent then 0
  else nearest d.num d.den

/-- The nearest magnitude of a decimal fits below the sign bit. -/
theorem nearestDecimal_lt (d : Decimal) : nearestDecimal d < 2 ^ magnitudeBits := by
  unfold nearestDecimal
  repeat' split
  · decide
  · decide
  · decide
  · exact nearest_lt _ _

/-- The decimal, rounded to the nearest number. -/
def ofDecimal (d : Decimal) : Binary64 where
  negative := d.negative
  magnitude := nearestDecimal d
  magnitude_lt := nearestDecimal_lt d

/-- The magnitude of the product of two magnitudes, neither of which is that of a NaN. An infinity
stays one if the other magnitude is that of one or more. -/
def mul (m n : Nat) : Nat :=
  nearest (units m * units n) (2 ^ (2 * resolution))

end Binary64

end WhereClause
