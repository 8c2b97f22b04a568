import WhereClause.Proofs.Timestamp.Reading

/-!
# Reading a written timestamp back

Every timestamp that is read is proper (`Timestamp.Proper`): its date is in the calendar, its time
of day is one of a clock, and the format has a text for it.  The text that is written for a proper
timestamp is read back as this timestamp (`Timestamp.read?_of_write?`).

Each step of the reader takes what the writer has put there and leaves the rest, so the rest is a
parameter of all lemmas about steps.
-/

namespace WhereClause

namespace Timestamp

-- Powers of natural numbers are those of the core library, whatever else is in scope.
attribute [local instance (high)] instPowNat

open Numeral

/-- The timestamp is a moment on some clock, and has a text. -/
structure Proper (t : Timestamp) : Prop where
  date : t.date.Valid
  clock : t.ClockValid
  nanosecond_lt : t.nanosecond < 1000000000
  expressible : t.Expressible

/-! ### What is read -/

namespace Step

/-- A fraction is less than a second. -/
lemma fraction_lt {n : Nat} {cs rest : List Char} (h : fraction cs = some (n, rest)) :
    n < 1000000000 := by
  unfold fraction at h
  split at h
  · rename_i tail
    dsimp only at h
    split at h
    · exact nomatch h
    · generalize htaken : (tail.takeWhile Char.isDigit).take 9 = taken at h
      have hnine : AreDigits (taken.rightpad 9 '0') := by
        refine AreDigits.append (fun c hc => ?_) (AreDigits.replicate_zero _)
        rw [← htaken] at hc
        exact List.mem_takeWhile_imp (List.mem_of_mem_take hc)
      have hlength : (taken.rightpad 9 '0').length = 9 := by
        have htake : taken.length ≤ 9 := htaken ▸ List.length_take_le _ _
        rw [List.rightpad, List.length_append, List.length_replicate]
        omega
      have hlt := hnine.ofDigitChars_lt 0
      rw [hlength, Nat.zero_add, Nat.mul_one] at hlt
      obtain ⟨rfl, -⟩ := Prod.mk.inj (Option.some.inj h)
      exact hlt
  · obtain ⟨rfl, -⟩ := Prod.mk.inj (Option.some.inj h)
    decide

/-- The fraction of a written timestamp is less than a second. -/
lemma timestamp_nanosecond_lt {t : Timestamp} {cs rest : List Char}
    (h : timestamp cs = some (t, rest)) : t.nanosecond < 1000000000 := by
  simp only [timestamp, bind_eq_some_iff, pure_eq_some_iff, Prod.mk.injEq] at h
  obtain ⟨_, _, -, _, _, -, _, _, -, _, _, -, _, _, -, _, _, -, _, _, -, _, _, hfraction, _, _, -,
    rfl, -⟩ := h
  exact fraction_lt hfraction

end Step

/-- A timestamp that is read is proper. -/
theorem proper_of_read? {cs : List Char} {t : Timestamp} (h : read? cs = some t) : t.Proper := by
  have hexpressible := expressible_of_read? h
  unfold read? at h
  split at h
  · rename_i written hwritten
    have hlt := Step.timestamp_nanosecond_lt hwritten
    unfold ofWritten? at h
    split at h
    · dsimp only at h
      split at h
      · rename_i hvalid
        obtain rfl := Option.some.inj h
        exact ⟨hvalid.1, hvalid.2.1, (by decide : 999999999 < 1000000000), hexpressible⟩
      · exact nomatch h
    · split at h
      · rename_i hvalid
        obtain rfl := Option.some.inj h
        exact ⟨hvalid.1, hvalid.2, hlt, hexpressible⟩
      · exact nomatch h
  · exact nomatch h

/-! ### What is written -/

/-- A padded number is as wide as the padding if it fits. -/
lemma length_padded {width n : Nat} (hwidth : 0 < width) (h : n < 10 ^ width) :
    (padded width n).length = width := by
  have hlength : (ofNat n).length ≤ width := (Nat.length_toDigits_le_iff (by decide) hwidth).mpr h
  rw [padded, List.leftpad, List.length_append, List.length_replicate]
  omega

/-- A padded number has only digits. -/
lemma areDigits_padded (width n : Nat) : AreDigits (padded width n) :=
  (AreDigits.replicate_zero _).append (areDigits_ofNat n)

/-- A padded number denotes the number. -/
lemma value_padded (width n : Nat) : value (padded width n) = n := by
  rw [padded, List.leftpad, value_zeros_append, value_ofNat]

/-- What is written for a fraction other than zero are digits, and they are those of the number of
nanoseconds once they are filled up to nine. -/
lemma exists_fractionText {nanosecond : Nat} (h : nanosecond < 1000000000) (hne : nanosecond ≠ 0) :
    ∃ taken, fractionText nanosecond = '.' :: taken ∧ AreDigits taken ∧ taken ≠ [] ∧
      (taken.take 9).rightpad 9 '0' = padded 9 nanosecond := by
  obtain ⟨zeros, hzeros⟩ := rdropWhile_append_zeros (padded 9 nanosecond)
  have hlength : (padded 9 nanosecond).length = 9 := length_padded (by decide) h
  refine ⟨(padded 9 nanosecond).rdropWhile (· == '0'), if_neg hne, ?_, ?_, ?_⟩
  · exact (areDigits_padded 9 nanosecond).of_subset (List.rdropWhile_prefix _ _).subset
  · intro hnil
    have hvalue := value_padded 9 nanosecond
    rw [← hzeros, hnil, value_append_zeros, value, Nat.ofDigitChars_nil, Nat.zero_mul] at hvalue
    exact hne hvalue.symm
  · generalize (padded 9 nanosecond).rdropWhile (· == '0') = taken at hzeros
    have hsum : taken.length + zeros = 9 := by
      rw [← hlength, ← hzeros, List.length_append, List.length_replicate]
    have hcount : 9 - taken.length = zeros := by omega
    rw [List.take_of_length_le (by omega), List.rightpad, hcount, hzeros]

/-- Neither a digit nor a point stands at the start of an offset. -/
lemma head?_offsetText (n : Int) :
    (offsetText n).head?.all (!·.isDigit) ∧ (offsetText n).head? ≠ some '.' := by
  unfold offsetText
  split
  · exact ⟨rfl, by decide⟩
  · dsimp only
    split <;> exact ⟨rfl, by simp⟩

/-! ### Steps over what is written -/

namespace Step

variable {α β : Type}

/-- A step that yields a value leaves it to the steps behind it to go on. -/
lemma bind_of_some {x : Step α} {f : α → Step β} {cs rest : List Char} {a : α}
    (h : x cs = some (a, rest)) : (x >>= f) cs = f a rest := by
  change (x cs).bind (fun p => f p.1 p.2) = _
  rw [h, Option.bind_some]

/-- The given character is taken. -/
lemma char_cons (c : Char) (rest : List Char) : char c (c :: rest) = some ((), rest) :=
  if_pos rfl

/-- A padded number is taken. -/
lemma digits_padded {width n : Nat} (hwidth : 0 < width) (h : n < 10 ^ width) (rest : List Char) :
    digits width (padded width n ++ rest) = some (n, rest) := by
  have hlength := length_padded hwidth h
  have hall : (padded width n).all Char.isDigit = true :=
    List.all_eq_true.mpr (areDigits_padded width n)
  rw [digits, List.take_left' hlength, List.drop_left' hlength, if_pos ⟨hlength, hall⟩]
  exact congrArg (fun n => some (n, rest)) (value_padded width n)

/-- A fraction is taken if neither a digit nor a point follows. -/
lemma fraction_fractionText {nanosecond : Nat} (h : nanosecond < 1000000000) {rest : List Char}
    (hdigit : rest.head?.all (!·.isDigit)) (hpoint : rest.head? ≠ some '.') :
    fraction (fractionText nanosecond ++ rest) = some (nanosecond, rest) := by
  rcases Nat.eq_zero_or_pos nanosecond with rfl | hpos
  · change fraction rest = _
    unfold fraction
    split
    · exact absurd rfl hpoint
    · rfl
  · obtain ⟨taken, htext, htaken, hne, hnine⟩ := exists_fractionText h (Nat.ne_of_gt hpos)
    rw [htext, List.cons_append, fraction, htaken.takeWhile_append hdigit,
      htaken.dropWhile_append hdigit, if_neg hne, hnine]
    exact congrArg (fun n => some (n, rest)) (value_padded 9 nanosecond)

/-- Hours and minutes are taken. -/
lemma hoursMinutes_padded {hours minutes : Nat} (hhours : hours ≤ 23) (hminutes : minutes ≤ 59)
    (rest : List Char) :
    hoursMinutes (padded 2 hours ++ ':' :: (padded 2 minutes ++ rest)) =
      some (↑(hours * 3600 + minutes * 60), rest) := by
  rw [hoursMinutes, bind_of_some (digits_padded (by decide) (by omega) _),
    bind_of_some (char_cons _ _), bind_of_some (digits_padded (by decide) (by omega) _),
    if_pos ⟨hhours, hminutes⟩]
  rfl

/-- An offset is taken. -/
lemma offset_offsetText {n : Int} (hwhole : n % 60 = 0) (hday : n.natAbs < 86400)
    (rest : List Char) : offset (offsetText n ++ rest) = some (n, rest) := by
  rw [offsetText]
  split
  · rename_i hzero
    rw [hzero]
    rfl
  · have hhours : n.natAbs / 60 / 60 ≤ 23 := by omega
    have hminutes : n.natAbs / 60 % 60 ≤ 59 := by omega
    have htaken := hoursMinutes_padded hhours hminutes rest
    have hseconds : n.natAbs / 60 / 60 * 3600 + n.natAbs / 60 % 60 * 60 = n.natAbs := by omega
    rw [hseconds] at htaken
    simp only [List.cons_append, List.append_assoc]
    split
    · change (hoursMinutes >>= fun seconds => pure (-seconds)) _ = _
      rw [bind_of_some htaken]
      change some (-(n.natAbs : Int), rest) = _
      rw [Int.ofNat_natAbs_of_nonpos (by omega), Int.neg_neg]
    · change hoursMinutes _ = _
      rw [htaken, Int.natAbs_of_nonneg (by omega)]

/-- A date is taken. -/
lemma date_padded {d : Date} (hd : d.Valid) (hyear : 0 ≤ d.year ∧ d.year ≤ 9999)
    (rest : List Char) :
    date (padded 4 d.year.natAbs ++ '-' :: (padded 2 d.month ++ '-' :: (padded 2 d.day ++ rest))) =
      some (d, rest) := by
  obtain ⟨⟨-, hmonth⟩, -, hday⟩ := hd
  have hlength : d.day ≤ 31 := by
    refine Nat.le_trans hday ?_
    unfold Date.monthLength
    repeat' split
    all_goals decide
  rw [date, bind_of_some (digits_padded (by decide) (by omega) _), bind_of_some (char_cons _ _),
    bind_of_some (digits_padded (by decide) (by omega) _), bind_of_some (char_cons _ _),
    bind_of_some (digits_padded (by decide) (by omega) _), Int.natAbs_of_nonneg hyear.1]
  rfl

/-- A proper timestamp is taken. -/
lemma timestamp_of_write? {t : Timestamp} (h : t.Proper) {text : List Char}
    (htext : t.write? = some text) : timestamp text = some (t, []) := by
  obtain ⟨hdate, ⟨hhour, hminute, hsecond⟩, hnanosecond, hexpressible⟩ := h
  obtain ⟨hyear, hwhole, hday⟩ := hexpressible
  obtain ⟨hdigit, hpoint⟩ := head?_offsetText t.offset
  have hoffset := offset_offsetText hwhole hday []
  rw [List.append_nil] at hoffset
  rw [write?, if_pos ⟨hyear, hwhole, hday⟩] at htext
  obtain rfl := Option.some.inj htext
  simp only [List.append_assoc, List.cons_append]
  rw [timestamp, bind_of_some (date_padded hdate hyear _), bind_of_some (a := ()) rfl,
    bind_of_some (digits_padded (by decide) (by omega) _), bind_of_some (char_cons _ _),
    bind_of_some (digits_padded (by decide) (by omega) _), bind_of_some (char_cons _ _),
    bind_of_some (digits_padded (by decide) (by omega) _),
    bind_of_some (fraction_fractionText hnanosecond hdigit hpoint), bind_of_some hoffset]
  rfl

end Step

/-- The text that is written for a proper timestamp is read back as this timestamp. -/
theorem read?_of_write? {t : Timestamp} (h : t.Proper) {text : List Char}
    (htext : t.write? = some text) : read? text = some t := by
  have hsecond : t.second ≠ 60 := by
    have := h.clock.2.2
    omega
  rw [read?, Step.timestamp_of_write? h htext]
  dsimp only
  rw [ofWritten?, if_neg hsecond, if_pos ⟨h.date, h.clock⟩]

end Timestamp

end WhereClause
