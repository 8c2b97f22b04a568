import WhereClause.Timestamp.Text
import WhereClause.Proofs.Numeral.Reading

/-!
# What reading a timestamp yields

A timestamp that is read from a text can be written again: the reader takes a year of four digits
and an offset of whole minutes below a day, and these are the demands of the format
(`Timestamp.expressible_of_read?`).
-/

namespace WhereClause

namespace Timestamp

-- Powers of natural numbers are those of the core library, whatever else is in scope.
attribute [local instance (high)] instPowNat

/-! ### Steps -/

namespace Step

variable {α β : Type}

/-- A sequence of steps yields what its second part yields on the text that the first part leaves.
-/
lemma bind_eq_some_iff {x : Step α} {f : α → Step β} {cs : List Char} {r : β × List Char} :
    (x >>= f) cs = some r ↔ ∃ a rest, x cs = some (a, rest) ∧ f a rest = some r := by
  change (x cs).bind (fun p => f p.1 p.2) = some r ↔ _
  rw [Option.bind_eq_some_iff]
  constructor
  · rintro ⟨⟨a, rest⟩, hx, hf⟩
    exact ⟨a, rest, hx, hf⟩
  · rintro ⟨a, rest, hx, hf⟩
    exact ⟨(a, rest), hx, hf⟩

/-- Doing nothing yields the given value and leaves the text as it is. -/
lemma pure_eq_some_iff {a : α} {cs : List Char} {r : α × List Char} :
    (pure a : Step α) cs = some r ↔ r = (a, cs) := by
  change some (a, cs) = some r ↔ _
  rw [Option.some_inj, eq_comm]

/-- A number of so many digits is below that power of ten. -/
lemma digits_lt {count n : Nat} {cs rest : List Char} (h : digits count cs = some (n, rest)) :
    n < 10 ^ count := by
  rw [digits] at h
  split at h
  · rename_i htaken
    obtain ⟨hlength, hdigits⟩ := htaken
    rw [Option.some_inj, Prod.mk.injEq] at h
    have hlt := AreDigits.ofDigitChars_lt (List.all_eq_true.mp hdigits) 0
    rwa [hlength, h.1, Nat.zero_add, Nat.mul_one] at hlt
  · exact absurd h (by simp)

/-- Hours and minutes are whole minutes, less than a day. -/
lemma hoursMinutes_bounds {n : Int} {cs rest : List Char}
    (h : hoursMinutes cs = some (n, rest)) : 0 ≤ n ∧ n < 86400 ∧ n % 60 = 0 := by
  simp only [hoursMinutes, bind_eq_some_iff] at h
  obtain ⟨hours, _, -, _, _, -, minutes, _, -, h⟩ := h
  split at h
  · have hn := congrArg Prod.fst (pure_eq_some_iff.mp h)
    dsimp only at hn
    omega
  · exact nomatch h

/-- An offset is a whole number of minutes, less than a day. -/
lemma offset_bounds {n : Int} {cs rest : List Char} (h : offset cs = some (n, rest)) :
    n.natAbs < 86400 ∧ n % 60 = 0 := by
  unfold offset at h
  split at h
  · obtain ⟨rfl, -⟩ := by simpa using h
    decide
  · obtain ⟨rfl, -⟩ := by simpa using h
    decide
  · have := hoursMinutes_bounds h
    omega
  · obtain ⟨m, _, hm, hn⟩ := bind_eq_some_iff.mp h
    have hbounds := hoursMinutes_bounds hm
    have hn := congrArg Prod.fst (pure_eq_some_iff.mp hn)
    dsimp only at hn
    omega
  · exact absurd h (by simp)

/-- A date has a year of four digits. -/
lemma date_year_bounds {d : Date} {cs rest : List Char} (h : date cs = some (d, rest)) :
    0 ≤ d.year ∧ d.year ≤ 9999 := by
  simp only [date, bind_eq_some_iff, pure_eq_some_iff, Prod.mk.injEq] at h
  obtain ⟨year, _, hyear, _, _, -, _, _, -, _, _, -, _, _, -, rfl, -⟩ := h
  have hlt := digits_lt hyear
  dsimp only
  omega

/-- A written timestamp has a year of four digits and an offset of whole minutes below a day. -/
lemma timestamp_expressible {t : Timestamp} {cs rest : List Char}
    (h : timestamp cs = some (t, rest)) : t.Expressible := by
  simp only [timestamp, bind_eq_some_iff, pure_eq_some_iff, Prod.mk.injEq] at h
  obtain ⟨d, _, hdate, _, _, -, _, _, -, _, _, -, _, _, -, _, _, -, _, _, -, _, _, -, n, _, hoffset,
    rfl, -⟩ := h
  have hyear := date_year_bounds hdate
  have hbounds := offset_bounds hoffset
  exact ⟨hyear, hbounds.2, hbounds.1⟩

end Step

/-! ### Timestamps -/

/-- The timestamp that a written one stands for has its year and its offset. -/
lemma Expressible.of_ofWritten? {t u : Timestamp} (h : ofWritten? t = some u)
    (ht : t.Expressible) : u.Expressible := by
  unfold ofWritten? at h
  split at h
  · dsimp only at h
    split at h
    · obtain rfl := Option.some.inj h
      exact ht
    · exact nomatch h
  · split at h
    · obtain rfl := Option.some.inj h
      exact ht
    · exact nomatch h

/-- Every timestamp that is read can be written. -/
theorem expressible_of_read? {cs : List Char} {t : Timestamp} (h : read? cs = some t) :
    t.Expressible := by
  unfold read? at h
  split at h
  · rename_i written hwritten
    exact .of_ofWritten? h (Step.timestamp_expressible hwritten)
  · exact nomatch h

end Timestamp

end WhereClause
