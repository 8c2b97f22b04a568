import WhereClause.Binary64.Text
import Mathlib.Tactic.ByContra
import Mathlib.Tactic.Lemma

/-!
# Rounding to binary64 numbers

The middles between neighbouring magnitudes grow with the magnitudes, so the values that round to a
finite magnitude are those between two middles, and the search for it finds it
(`Binary64.nearest_of_roundsTo`).  What decides is the value alone, not the fraction that it is
given as (`Binary64.roundsTo_congr`).

The decimal that is written for a finite magnitude rounds to this magnitude
(`Binary64.readsBack_shortest`), whatever zeros are written at its end (`Binary64.readsBack_zeros`),
and the shortcuts for powers of ten far out of range do not change that
(`Binary64.nearestDecimal_of_readsBack`).
-/

namespace WhereClause

-- Powers of natural numbers are those of the core library, whatever else is in scope.
attribute [local instance (high)] instPowNat

namespace Binary64

/-! ## Units -/

/-- Up to the least number with a full fraction field the units are the magnitudes. -/
lemma units_of_le {n : Nat} (h : n ≤ 2 ^ fractionBits) : units n = n := by
  rw [units]
  rcases Nat.lt_or_eq_of_le h with hlt | rfl
  · rw [if_pos hlt]
  · rw [if_neg (Nat.lt_irrefl _), Nat.mod_self, Nat.div_self (Nat.two_pow_pos _)]
    rfl

/-- The next magnitude stands for a greater value. -/
lemma units_lt_units_succ (n : Nat) : units n < units (n + 1) := by
  rcases Nat.lt_or_ge n (2 ^ fractionBits) with hsmall | hlarge
  · rw [units_of_le (Nat.le_of_lt hsmall), units_of_le hsmall]
    exact Nat.lt_succ_self n
  · have hpos : 0 < 2 ^ fractionBits := Nat.two_pow_pos _
    have hsplit := Nat.div_add_mod n (2 ^ fractionBits)
    have hexponent : 1 ≤ n / 2 ^ fractionBits := Nat.div_pos hlarge hpos
    have hfraction := Nat.mod_lt n hpos
    rw [units, if_neg (Nat.not_lt.mpr hlarge), units, if_neg (by omega)]
    generalize 2 ^ fractionBits = full at *
    generalize n / full = exponent at *
    generalize n % full = fraction at *
    obtain ⟨e, rfl⟩ := Nat.exists_eq_add_of_le' hexponent
    rcases Nat.lt_or_eq_of_le (Nat.succ_le_of_lt hfraction) with hlt | hfull
    · -- The fraction field is not full, and the exponent stays.
      have hdiv : (n + 1) / full = e + 1 := by
        rw [← hsplit, Nat.add_assoc, Nat.mul_add_div hpos, Nat.div_eq_of_lt hlt, Nat.add_zero]
      have hmod : (n + 1) % full = fraction + 1 := by
        rw [← hsplit, Nat.add_assoc, Nat.mul_add_mod, Nat.mod_eq_of_lt hlt]
      rw [hdiv, hmod]
      exact Nat.mul_lt_mul_of_pos_right (by omega) (Nat.two_pow_pos _)
    · -- The fraction field is full, and its carry goes to the exponent.
      have hcarry : n + 1 = full * (e + 1 + 1) := by
        rw [← hsplit, Nat.add_assoc, ← Nat.succ_eq_add_one fraction, hfull, ← Nat.mul_succ]
      rw [hcarry, Nat.mul_div_cancel_left _ hpos, Nat.mul_mod_right, Nat.add_zero,
        Nat.add_sub_cancel, Nat.add_sub_cancel, Nat.pow_succ, Nat.mul_comm _ 2, ← Nat.mul_assoc]
      exact Nat.mul_lt_mul_of_pos_right (by omega) (Nat.two_pow_pos _)

/-- A greater magnitude stands for a greater value. -/
lemma units_le_units {m n : Nat} (h : m ≤ n) : units m ≤ units n := by
  induction h with
  | refl => exact Nat.le_refl _
  | step _ ih => exact Nat.le_trans ih (Nat.le_of_lt (units_lt_units_succ _))

/-- With an empty fraction field the units are a power of two. -/
lemma units_of_exponent (e : Nat) :
    units ((e + 1) * 2 ^ fractionBits) = 2 ^ (fractionBits + e) := by
  have hpos : 0 < 2 ^ fractionBits := Nat.two_pow_pos _
  have hlarge : ¬(e + 1) * 2 ^ fractionBits < 2 ^ fractionBits :=
    Nat.not_lt.mpr (Nat.le_mul_of_pos_left _ e.succ_pos)
  rw [units, if_neg hlarge, Nat.mul_mod_left, Nat.mul_div_cancel _ hpos, Nat.pow_add]
  rfl

/-! ## Middles -/

variable {scaled den m n : Nat}

/-- A value rounds above a magnitude if it is beyond the middle to the next one, or on this middle
and the magnitude is odd. -/
lemma roundsAbove_iff : roundsAbove scaled den n = true ↔
    n < infinity ∧ ((units n + units (n + 1)) * den < scaled ∨
      (units n + units (n + 1)) * den = scaled ∧ n % 2 = 1) := by
  simp [roundsAbove]

/-- A value beyond the middle rounds above the magnitude. -/
lemma roundsAbove_of_lt (hn : n < infinity) (h : (units n + units (n + 1)) * den < scaled) :
    roundsAbove scaled den n = true :=
  roundsAbove_iff.mpr ⟨hn, .inl h⟩

/-- A value short of the middle does not round above the magnitude. -/
lemma not_roundsAbove_of_lt (h : scaled < (units n + units (n + 1)) * den) :
    roundsAbove scaled den n = false := by
  rw [Bool.eq_false_iff, Ne, roundsAbove_iff]
  omega

/-- The middles grow. -/
lemma roundsAbove_of_succ (hden : 0 < den) (h : roundsAbove scaled den (n + 1) = true) :
    roundsAbove scaled den n = true := by
  obtain ⟨hn, h⟩ := roundsAbove_iff.mp h
  have hmiddles : (units n + units (n + 1)) * den < (units (n + 1) + units (n + 1 + 1)) * den := by
    have hlow := units_lt_units_succ n
    have hhigh := units_lt_units_succ (n + 1)
    exact Nat.mul_lt_mul_of_pos_right (by omega) hden
  exact roundsAbove_of_lt (by omega) (by omega)

/-- What rounds above a magnitude rounds above all lesser ones. -/
lemma roundsAbove_of_le (hden : 0 < den) (hmn : m ≤ n) (h : roundsAbove scaled den n = true) :
    roundsAbove scaled den m = true := by
  induction hmn with
  | refl => exact h
  | step _ ih => exact ih (roundsAbove_of_succ hden h)

/-- Rounding above a magnitude depends on the value alone. -/
lemma roundsAbove_congr {scaled' den' : Nat} (hden : 0 < den) (hden' : 0 < den')
    (h : scaled * den' = scaled' * den) (n : Nat) :
    roundsAbove scaled den n = roundsAbove scaled' den' n := by
  rw [Bool.eq_iff_iff, roundsAbove_iff, roundsAbove_iff]
  generalize units n + units (n + 1) = middle
  have hswap : middle * den * den' = middle * den' * den := by
    rw [Nat.mul_assoc, Nat.mul_comm den, Nat.mul_assoc]
  have hlt : middle * den < scaled ↔ middle * den' < scaled' := by
    rw [← Nat.mul_lt_mul_right hden', hswap, h, Nat.mul_lt_mul_right hden]
  have heq : middle * den = scaled ↔ middle * den' = scaled' := by
    rw [← Nat.mul_right_cancel_iff hden', hswap, h, Nat.mul_right_cancel_iff hden]
  rw [hlt, heq]

/-! ## Search -/

/-- The search finds the first value at which the property fails. -/
lemma firstFailure_eq {p : Nat → Bool} {n : Nat} (hholds : ∀ m < n, p m = true)
    (hfails : ∀ m, n ≤ m → p m = false) {k base : Nat} (hbase : base ≤ n)
    (hn : n < base + 2 ^ k) : firstFailure p k base = n := by
  induction k generalizing base with
  | zero =>
    rw [firstFailure]
    omega
  | succ k ih =>
    rw [Nat.pow_succ] at hn
    have hpos := Nat.two_pow_pos k
    rw [firstFailure]
    rcases Nat.lt_or_ge n (base + 2 ^ k) with hlow | hhigh
    · rw [hfails _ (by omega), if_neg Bool.false_ne_true]
      exact ih hbase hlow
    · rw [hholds _ (by omega), if_pos rfl]
      exact ih hhigh (by omega)

variable {num : Nat}

/-- A value rounds to a magnitude if it does not round above it, but above all lesser ones. -/
lemma roundsTo_iff (hden : 0 < den) : roundsTo num den n = true ↔
    roundsAbove (num * 2 ^ (resolution + 1)) den n = false ∧
      ∀ m < n, roundsAbove (num * 2 ^ (resolution + 1)) den m = true := by
  generalize hscaled : num * 2 ^ (resolution + 1) = scaled
  rw [roundsTo, hscaled, Bool.and_eq_true, Bool.not_eq_true', Bool.or_eq_true, beq_iff_eq]
  refine and_congr_right fun _ => ⟨?_, fun h => ?_⟩
  · rintro (rfl | h) m hm
    · exact absurd hm (Nat.not_lt_zero m)
    · exact roundsAbove_of_le hden (by omega) h
  · rcases Nat.eq_zero_or_pos n with hzero | hpos
    · exact .inl hzero
    · exact .inr (h (n - 1) (by omega))

/-- The search for the nearest magnitude finds the one that the value rounds to. -/
theorem nearest_of_roundsTo (hden : 0 < den) (hn : n < 2 ^ magnitudeBits)
    (h : roundsTo num den n = true) : nearest num den = n := by
  obtain ⟨hfails, hholds⟩ := (roundsTo_iff hden).mp h
  refine firstFailure_eq hholds (fun m hm => ?_) (Nat.zero_le n) (by rwa [Nat.zero_add])
  rw [Bool.eq_false_iff]
  intro habove
  exact Bool.false_ne_true (hfails.symm.trans (roundsAbove_of_le hden hm habove))

/-- What a fraction rounds to depends on its value alone. -/
theorem roundsTo_congr {num' den' : Nat} (hden : 0 < den) (hden' : 0 < den')
    (h : num * den' = num' * den) (n : Nat) : roundsTo num den n = roundsTo num' den' n := by
  have hscaled : num * 2 ^ (resolution + 1) * den' = num' * 2 ^ (resolution + 1) * den := by
    rw [Nat.mul_right_comm, h, Nat.mul_right_comm]
  simp only [roundsTo, roundsAbove_congr hden hden' hscaled]

/-- Nothing but zero rounds to nothing above zero. -/
lemma eq_zero_of_roundsTo (hden : 0 < den) (h : roundsTo num den n = true)
    (hsmall : num * 2 ^ (resolution + 1) < den) : n = 0 := by
  obtain ⟨-, hholds⟩ := (roundsTo_iff hden).mp h
  by_contra hne
  have habove := hholds 0 (Nat.pos_of_ne_zero hne)
  have hmiddle : units 0 + units (0 + 1) = 1 := rfl
  rw [not_roundsAbove_of_lt (by rwa [hmiddle, Nat.one_mul])] at habove
  exact Bool.false_ne_true habove

/-- A value that rounds to a finite magnitude is below twice the power of two that continues the
scale of finite values. -/
lemma lt_of_roundsTo (hden : 0 < den) (hn : n < infinity) (h : roundsTo num den n = true) :
    num * 2 ^ (resolution + 1) < 2 ^ (fractionBits + 2046 + 1) * den := by
  obtain ⟨hfails, -⟩ := (roundsTo_iff hden).mp h
  have hnext : units (n + 1) ≤ units ((2046 + 1) * 2 ^ fractionBits) := units_le_units hn
  rw [units_of_exponent] at hnext
  have hmiddle : units n + units (n + 1) < 2 ^ (fractionBits + 2046 + 1) := by
    have htwice : units n + units (n + 1) < units (n + 1) * 2 := by
      have := units_lt_units_succ n
      omega
    rw [Nat.pow_succ]
    exact Nat.lt_of_lt_of_le htwice (Nat.mul_le_mul_right 2 hnext)
  by_contra hlarge
  have habove := roundsAbove_of_lt hn
    (Nat.lt_of_lt_of_le (Nat.mul_lt_mul_of_pos_right hmiddle hden) (Nat.not_lt.mp hlarge))
  exact Bool.false_ne_true (hfails.symm.trans habove)

/-- A value that is exactly a finite number of steps rounds to the magnitude that has them. -/
lemma roundsTo_units (hden : 0 < den) (hn : n < infinity)
    (h : num * 2 ^ (resolution + 1) = 2 * units n * den) : roundsTo num den n = true := by
  refine (roundsTo_iff hden).mpr ⟨not_roundsAbove_of_lt ?_, fun m hm => ?_⟩
  · have hnext := units_lt_units_succ n
    rw [h]
    exact Nat.mul_lt_mul_of_pos_right (by omega) hden
  · have hnext := units_lt_units_succ m
    have hle : units (m + 1) ≤ units n := units_le_units hm
    refine roundsAbove_of_lt (Nat.lt_trans hm hn) ?_
    rw [h]
    exact Nat.mul_lt_mul_of_pos_right (by omega) hden

/-! ## Decimals -/

variable {d : Decimal}

/-- The denominator of a decimal is positive. -/
lemma den_pos (d : Decimal) : 0 < d.den :=
  Nat.pow_pos (by decide)

/-- What a decimal rounds to depends on its absolute value alone. -/
lemma readsBack_congr {e : Decimal} (h : d.num * e.den = e.num * d.den) (n : Nat) :
    readsBack n d = readsBack n e :=
  roundsTo_congr (den_pos d) (den_pos e) h n

/-- Zeros at the end of the digits of a decimal do not count. -/
lemma readsBack_zeros (negative negative' : Bool) (significand zeros : Nat) (exponent : Int)
    (n : Nat) : readsBack n ⟨negative, significand * 10 ^ zeros, exponent - zeros⟩ =
      readsBack n ⟨negative', significand, exponent⟩ := by
  refine readsBack_congr ?_ n
  have hplaces : zeros + (exponent - zeros).toNat + (-exponent).toNat =
      exponent.toNat + (-(exponent - zeros)).toNat := by omega
  rw [Decimal.num, Decimal.den, Decimal.num, Decimal.den]
  dsimp only
  rw [Nat.mul_assoc, Nat.mul_assoc, Nat.mul_assoc, ← Nat.pow_add, ← Nat.pow_add, ← Nat.pow_add,
    ← Nat.add_assoc, hplaces]

/-- A decimal place is more than three binary ones. -/
lemma two_pow_le_ten_pow (places : Nat) : 2 ^ (3 * places) ≤ 10 ^ places := by
  rw [Nat.pow_mul]
  exact Nat.pow_le_pow_left (by decide) places

/-- A decimal other than zero whose power of ten is not negative is a whole number that is at least
as great as the power of two with three times the exponent. -/
lemma two_pow_le_num (hd : d.significand ≠ 0) (hexponent : 0 ≤ d.exponent) :
    d.den = 1 ∧ 2 ^ (3 * d.exponent.toNat) ≤ d.num := by
  refine ⟨?_, ?_⟩
  · rw [Decimal.den, Int.toNat_of_nonpos (by omega), Nat.pow_zero]
  · calc 2 ^ (3 * d.exponent.toNat)
      _ ≤ 10 ^ d.exponent.toNat := two_pow_le_ten_pow _
      _ ≤ d.num := Nat.le_mul_of_pos_left _ (Nat.pos_of_ne_zero hd)

/-- A decimal with a great power of ten rounds to no finite magnitude. -/
lemma exponent_le_of_readsBack (hn : n < infinity) (h : readsBack n d = true)
    (hd : d.significand ≠ 0) : d.exponent ≤ 400 := by
  by_contra hlarge
  obtain ⟨hden, hnum⟩ := two_pow_le_num hd (by omega)
  have hlt := lt_of_roundsTo (den_pos d) hn h
  rw [hden, Nat.mul_one] at hlt
  have hpower := Nat.lt_of_le_of_lt (Nat.mul_le_mul_right _ hnum) hlt
  rw [← Nat.pow_add, Nat.pow_lt_pow_iff_right (by decide), resolution, fractionBits] at hpower
  omega

/-- A decimal with too small a power of ten is less than half a step. -/
lemma num_lt_den (hd : d.significand.log2 + 1100 < -3 * d.exponent) :
    d.num * 2 ^ (resolution + 1) < d.den := by
  have hnum : d.num = d.significand := by
    rw [Decimal.num, Int.toNat_of_nonpos (by omega), Nat.pow_zero, Nat.mul_one]
  calc d.num * 2 ^ (resolution + 1)
    _ < 2 ^ (d.significand.log2 + 1) * 2 ^ (resolution + 1) := by
      rw [hnum]
      exact Nat.mul_lt_mul_of_pos_right Nat.lt_log2_self (Nat.two_pow_pos _)
    _ = 2 ^ (d.significand.log2 + 1 + (resolution + 1)) := (Nat.pow_add _ _ _).symm
    _ ≤ 2 ^ (3 * (-d.exponent).toNat) := by
      refine Nat.pow_le_pow_right (by decide) ?_
      rw [resolution]
      omega
    _ ≤ d.den := two_pow_le_ten_pow _

/-- A decimal with too small a power of ten rounds to zero. -/
lemma eq_zero_of_readsBack (h : readsBack n d = true)
    (hd : d.significand.log2 + 1100 < -3 * d.exponent) : n = 0 :=
  eq_zero_of_roundsTo (den_pos d) h (num_lt_den hd)

/-- A decimal is rounded to the finite magnitude that it reads back as.  So the powers far out of
range are decided as they have to be. -/
theorem nearestDecimal_of_readsBack (hn : n < infinity) (h : readsBack n d = true) :
    nearestDecimal d = n := by
  rw [nearestDecimal]
  split
  · rename_i hzero
    refine (eq_zero_of_roundsTo (den_pos d) h ?_).symm
    rw [Decimal.num, hzero, Nat.zero_mul, Nat.zero_mul]
    exact den_pos d
  · rename_i hne
    rw [if_neg (Int.not_lt.mpr (exponent_le_of_readsBack hn h hne))]
    split
    · rename_i hsmall
      exact (eq_zero_of_readsBack h hsmall).symm
    · exact nearest_of_roundsTo (den_pos d) (Nat.lt_trans hn (by decide)) h

/-! ## Shortest decimals -/

/-- A candidate reads back. -/
lemma readsBack_of_candidate? {count : Nat} (h : candidate? n count = some d) :
    readsBack n d = true := by
  unfold candidate? at h
  dsimp only at h
  split at h
  · rename_i hlow hhigh
    obtain rfl := Option.some.inj h
    split
    · exact hhigh
    · exact hlow
  · rename_i hlow _
    obtain rfl := Option.some.inj h
    exact hlow
  · rename_i hhigh
    obtain rfl := Option.some.inj h
    exact hhigh
  · exact nomatch h

/-- The exact decimal reads back. -/
lemma readsBack_exactDecimal (hn : n < infinity) : readsBack n (exactDecimal n) = true := by
  refine roundsTo_units (den_pos _) hn ?_
  have hnum : (exactDecimal n).num = units n * 5 ^ resolution :=
    Nat.mul_one _
  have hden : (exactDecimal n).den = 10 ^ resolution := rfl
  rw [hnum, hden]
  generalize resolution = places
  rw [show 10 = 5 * 2 from rfl, Nat.mul_pow, Nat.pow_succ]
  ac_rfl

/-- The decimal that is written for a finite magnitude reads back. -/
theorem readsBack_shortest (hn : n < infinity) : readsBack n (shortest n) = true := by
  rw [shortest]
  rcases hfound : (List.range 17).findSome? fun i => candidate? n (i + 1) with _ | d
  · exact readsBack_exactDecimal hn
  · obtain ⟨count, -, hcandidate⟩ := List.exists_of_findSome?_eq_some hfound
    exact readsBack_of_candidate? hcandidate

/-- The decimal that is written for a finite magnitude other than zero is not zero. -/
lemma significand_shortest_ne_zero (hn : n < infinity) (hne : n ≠ 0) :
    (shortest n).significand ≠ 0 := by
  intro hzero
  refine hne (eq_zero_of_roundsTo (den_pos _) (readsBack_shortest hn) ?_)
  rw [Decimal.num, hzero, Nat.zero_mul, Nat.zero_mul]
  exact den_pos _

end Binary64

end WhereClause
