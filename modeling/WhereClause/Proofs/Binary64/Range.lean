import WhereClause.Proofs.Binary64.Rounding
import Mathlib.Data.Nat.Find

/-!
# The range of binary64 numbers

Every value rounds to one magnitude (`Binary64.roundsTo_nearest`), and a decimal is rounded to the
magnitude that it reads back as, also if this is that of the infinities
(`Binary64.readsBack_nearestDecimal`).  The magnitude is finite exactly for the values below
`Binary64.overflow`, which lies halfway between the greatest finite number and the power of two that
would follow it (`Binary64.isFinite_ofDecimal_iff`).
-/

namespace WhereClause

-- Powers of natural numbers are those of the core library, whatever else is in scope.
attribute [local instance (high)] instPowNat

namespace Binary64

variable {num den m n : Nat} {d : Decimal}

/-! ## The nearest magnitude -/

/-- Every value rounds to a magnitude up to that of the infinities. -/
lemma exists_roundsTo (hden : 0 < den) (num : Nat) :
    ∃ n ≤ infinity, roundsTo num den n = true := by
  have hinfinity : roundsAbove (num * 2 ^ (resolution + 1)) den infinity = false := by
    rw [Bool.eq_false_iff, Ne, roundsAbove_iff]
    exact fun h => Nat.lt_irrefl _ h.1
  -- The value rounds to the least magnitude that it does not round above.
  have hfails : ∃ n, roundsAbove (num * 2 ^ (resolution + 1)) den n = false := ⟨_, hinfinity⟩
  refine ⟨Nat.find hfails, Nat.find_min' hfails hinfinity, (roundsTo_iff hden).mpr ⟨?_, ?_⟩⟩
  · exact Nat.find_spec hfails
  · intro m hm
    exact (Bool.not_eq_false _).mp (Nat.find_min hfails hm)

/-- A value rounds to one magnitude only. -/
lemma eq_of_roundsTo (hden : 0 < den) (hm : roundsTo num den m = true)
    (hn : roundsTo num den n = true) : m = n := by
  obtain ⟨hmfails, hmholds⟩ := (roundsTo_iff hden).mp hm
  obtain ⟨hnfails, hnholds⟩ := (roundsTo_iff hden).mp hn
  rcases Nat.lt_trichotomy m n with hlt | heq | hgt
  · exact absurd (hmfails.symm.trans (hnholds m hlt)) Bool.false_ne_true
  · exact heq
  · exact absurd (hnfails.symm.trans (hmholds n hgt)) Bool.false_ne_true

/-- The nearest magnitude is the one that the value rounds to. -/
theorem roundsTo_nearest (hden : 0 < den) (num : Nat) :
    roundsTo num den (nearest num den) = true := by
  obtain ⟨n, hn, h⟩ := exists_roundsTo hden num
  rwa [nearest_of_roundsTo hden (Nat.lt_of_le_of_lt hn (by decide)) h]

/-! ## Overflow -/

/-- The power of two that would follow the greatest finite number. -/
def exponentBound : Nat :=
  1024

/-- The least value that rounds to an infinity, `2 ^ 1024 - 2 ^ 970`: halfway between the greatest
finite number and the power of two that would follow it. -/
def overflow : Nat :=
  2 ^ exponentBound - 2 ^ (exponentBound - fractionBits - 2)

/-- The overflow is at most the power of two that would follow the greatest finite number. -/
lemma overflow_le_two_pow {places : Nat} (h : exponentBound ≤ places) : overflow ≤ 2 ^ places :=
  Nat.le_trans (Nat.sub_le _ _) (Nat.pow_le_pow_right Nat.two_pos h)

/-- The middle between the greatest finite magnitude and that of the infinities. -/
lemma units_add_units_infinity :
    units (infinity - 1) + units (infinity - 1 + 1) = overflow * 2 ^ (resolution + 1) := by
  decide +kernel

/-- A value rounds above the greatest finite magnitude exactly from the overflow on. -/
lemma roundsAbove_finite_iff :
    roundsAbove (num * 2 ^ (resolution + 1)) den (infinity - 1) = true ↔ overflow * den ≤ num := by
  have hodd : (infinity - 1) % 2 = 1 := by decide
  have hlt : infinity - 1 < infinity := by decide
  have hhalf : 0 < 2 ^ (resolution + 1) := Nat.two_pow_pos _
  rw [roundsAbove_iff, units_add_units_infinity, Nat.mul_right_comm, Nat.mul_lt_mul_right hhalf,
    Nat.mul_right_cancel_iff hhalf]
  constructor
  · rintro ⟨-, h | ⟨h, -⟩⟩
    · exact Nat.le_of_lt h
    · exact Nat.le_of_eq h
  · intro h
    rcases Nat.lt_or_eq_of_le h with h | h
    · exact ⟨hlt, .inl h⟩
    · exact ⟨hlt, .inr ⟨h, hodd⟩⟩

/-- The magnitude that a value rounds to is finite exactly if the value is below the overflow. -/
lemma lt_infinity_iff_of_roundsTo (hden : 0 < den) (h : roundsTo num den n = true) :
    n < infinity ↔ num < overflow * den := by
  obtain ⟨hfails, hholds⟩ := (roundsTo_iff hden).mp h
  rw [← Nat.not_le, ← Nat.not_le (a := overflow * den), not_iff_not, ← roundsAbove_finite_iff]
  constructor
  · intro hn
    exact hholds _ (Nat.lt_of_lt_of_le (by decide) hn)
  · intro habove
    by_contra hn
    have hle : n ≤ infinity - 1 := by omega
    exact Bool.false_ne_true (hfails.symm.trans (roundsAbove_of_le hden hle habove))

/-! ## Decimals -/

/-- What is less than half a step rounds to zero. -/
lemma roundsTo_zero (h : num * 2 ^ (resolution + 1) < den) : roundsTo num den 0 = true := by
  have hmiddle : units 0 + units (0 + 1) = 1 := rfl
  have hbelow : roundsAbove (num * 2 ^ (resolution + 1)) den 0 = false :=
    not_roundsAbove_of_lt (by rwa [hmiddle, Nat.one_mul])
  rw [roundsTo, hbelow]
  rfl

/-- A value from the overflow on rounds to the magnitude of the infinities. -/
lemma roundsTo_infinity (hden : 0 < den) (h : overflow * den ≤ num) :
    roundsTo num den infinity = true := by
  obtain ⟨n, hn, hround⟩ := exists_roundsTo hden num
  have hinfinite : ¬n < infinity := by
    rw [lt_infinity_iff_of_roundsTo hden hround]
    exact Nat.not_lt.mpr h
  obtain rfl : n = infinity := by omega
  exact hround

/-- A decimal is rounded to the magnitude that it reads back as. -/
theorem readsBack_nearestDecimal (d : Decimal) : readsBack (nearestDecimal d) d = true := by
  rw [nearestDecimal]
  split
  · rename_i hzero
    refine roundsTo_zero ?_
    rw [Decimal.num, hzero, Nat.zero_mul, Nat.zero_mul]
    exact den_pos d
  · rename_i hne
    split
    · rename_i hlarge
      obtain ⟨hden, hnum⟩ := two_pow_le_num hne (Int.le_of_lt (Int.lt_trans (by decide) hlarge))
      refine roundsTo_infinity (den_pos d) ?_
      rw [hden, Nat.mul_one]
      refine Nat.le_trans (overflow_le_two_pow ?_) hnum
      rw [exponentBound]
      omega
    · split
      · rename_i hsmall
        exact roundsTo_zero (num_lt_den hsmall)
      · exact roundsTo_nearest (den_pos d) d.num

/-- The number that a decimal is rounded to has the sign of the decimal and the magnitude that the
decimal reads back as. -/
theorem ofDecimal_eq_iff {x : Binary64} :
    ofDecimal d = x ↔ x.negative = d.negative ∧ readsBack x.magnitude d = true := by
  constructor
  · rintro rfl
    exact ⟨rfl, readsBack_nearestDecimal d⟩
  · rintro ⟨hsign, hmagnitude⟩
    obtain ⟨negative, magnitude, hlt⟩ := x
    obtain rfl : negative = d.negative := hsign
    obtain rfl : nearestDecimal d = magnitude :=
      eq_of_roundsTo (den_pos d) (readsBack_nearestDecimal d) hmagnitude
    rfl

/-- A decimal is rounded to a finite number exactly if its absolute value is below the overflow. -/
theorem isFinite_ofDecimal_iff : (ofDecimal d).IsFinite ↔ d.num < overflow * d.den :=
  lt_infinity_iff_of_roundsTo (den_pos d) (readsBack_nearestDecimal d)

end Binary64

end WhereClause
